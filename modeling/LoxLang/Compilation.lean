import LoxLang.Binding
import LoxLang.Diagnostic
import LoxLang.Grammar.Statement
import LoxLang.Token.Scan

/-!
# From source text to a program that can run

* `Program.read`, `Program.readExpression` — the tree of a source text, and what is wrong with the
  text: first with its characters, then with the order of its tokens.
* **`Compilation.ofSource`** — a program with the hops of its variables, and all that is wrong with
  it.  Names are looked at only when the text could be read without errors.
* `Compilation.runnable?` — the program, if nothing is wrong with it.
-/

namespace LoxLang

/-- What a lexical error is told as. -/
def LexicalFault.diagnostic (fault : LexicalFault) : Diagnostic :=
  .lexical fault.line fault.error.message

/-- What a syntax error is told as, given the token after all others. -/
def SyntaxReport.diagnostic (endMark : Token) (report : SyntaxReport) : Diagnostic :=
  .grammatical (report.place endMark) report.error.message

/-- What a scope error is told as. -/
def ScopeReport.diagnostic (report : ScopeReport) : Diagnostic :=
  .scoping report.place report.error.message

namespace Program

/-- A tree read from tokens, with its errors as they are told. -/
def told {α : Type} (tokens : List Token) (parsed : Parsed α) : α × List Diagnostic :=
  (parsed.tree, parsed.reports.map (·.diagnostic (endMark tokens)))

/-- The statements of a source text, and what is wrong with it. -/
def read (source : String) : List Stmt × List Diagnostic :=
  let items := Scan.items source
  let tokens := Scan.tokens items
  let (program, problems) := told tokens (parse tokens)
  (program, (Scan.faults items).map LexicalFault.diagnostic ++ problems)

/-- The expression of a source text, and what is wrong with it. -/
def readExpression (source : String) : Option Expr × List Diagnostic :=
  let items := Scan.items source
  let tokens := Scan.tokens items
  let (value, problems) := told tokens (parseExpression tokens)
  (value, (Scan.faults items).map LexicalFault.diagnostic ++ problems)

end Program

/-- A program on its way from source text to its run. -/
structure Compilation where
  /-- The statements that could be read. -/
  tree : List Stmt
  /-- The statements with the hops of their variables, if the whole text could be read. -/
  bound? : Option (List Stmt)
  /-- All that is wrong. -/
  problems : List Diagnostic

namespace Compilation

/-- Reads a source text and binds its variables. -/
def ofSource (source : String) : Compilation :=
  match Program.read source with
  | (program, []) =>
    ⟨program, some (Program.bound program),
      (Program.mistakes program).map ScopeReport.diagnostic⟩
  | (program, problems) => ⟨program, none, problems⟩

/-- The program to run; nothing if anything is wrong. -/
def runnable? (compilation : Compilation) : Option (List Stmt) :=
  if compilation.problems.isEmpty then compilation.bound? else none

end Compilation

end LoxLang
