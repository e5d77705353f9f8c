import LoxLang.Proofs.Grammar.Reader

/-!
# Trees that keep their `for` loops

The parser writes a `for` loop as blocks and a `while` loop right away.  To say that this preserves its
meaning one needs the loop as it stands in the source.  The trees here keep it, and they keep statements
apart from declarations, as the grammar does: the body of a loop is a statement, so it declares nothing
outside of its own blocks.

* `Looped.Statement`, `Looped.Declaration` — trees with a node for `for` loops.
* `Looped.Statement.desugared` — the same tree with blocks and `while` loops in their place.
* **`Looped.parse`** — the parser of programs, except that it keeps the loops.
-/

namespace LoxLang

namespace Looped

/-- The first clause of a `for` loop: a variable or an expression. -/
inductive Initializer where
  | variable (name : Token) (value : Option Expr)
  | expression (value : Expr)

mutual

/-- Statements. -/
inductive Statement where
  | expression (value : Expr)
  | print (value : Expr)
  | block (body : List Declaration)
  | branch (condition : Expr) (consequent : Statement) (alternative : Option Statement)
  | loop (condition : Expr) (body : Statement)
  | forLoop (initializer : Option Initializer) (condition increment : Option Expr)
      (body : Statement)
  | return_ (keyword : Token) (value : Option Expr)

/-- Statements and declarations. -/
inductive Declaration where
  | variable (name : Token) (initializer : Option Expr)
  | function (name : Token) (parameters : List Token) (body : List Declaration)
  | statement (stmt : Statement)

end

/-! ## Without `for` loops -/

/-- The first clause as a statement. -/
def Initializer.desugared : Initializer → Stmt
  | .variable name value => .variable name value
  | .expression value => .expression value

mutual

/-- A statement with blocks and `while` loops in place of its `for` loops. -/
def Statement.desugared : Statement → Stmt
  | .expression value => .expression value
  | .print value => .print value
  | .block body => .block (Declaration.desugaredAll body)
  | .branch condition consequent alternative =>
    .branch condition consequent.desugared (Statement.desugared? alternative)
  | .loop condition body => .loop condition body.desugared
  | .forLoop initializer condition increment body =>
    .forLoop (initializer.map Initializer.desugared) condition increment body.desugared
  | .return_ keyword value => .return_ keyword value

/-- A statement that may be missing, without `for` loops. -/
def Statement.desugared? : Option Statement → Option Stmt
  | none => none
  | some stmt => some stmt.desugared

/-- A declaration without `for` loops. -/
def Declaration.desugared : Declaration → Stmt
  | .variable name initializer => .variable name initializer
  | .function name parameters body => .function name parameters (Declaration.desugaredAll body)
  | .statement stmt => stmt.desugared

/-- Declarations without `for` loops. -/
def Declaration.desugaredAll : List Declaration → List Stmt
  | [] => []
  | first :: others => first.desugared :: Declaration.desugaredAll others

end

/-! ## Parsing -/

/-- Trees that keep their loops. -/
def trees : Trees Initializer Statement Declaration where
  firstVar := .variable
  firstValue := .expression
  value := .expression
  print := .print
  return_ := .return_
  block := .block
  branch := .branch
  loop := .loop
  forLoop := .forLoop
  var := .variable
  function := .function

/-- The rules of the parser, with such trees. -/
def assembly : Assembly Parser Parser Initializer Statement Declaration :=
  Parser.assemblyOf trees fun read => .statement <$> read

/-- **The declarations of a program, with its `for` loops.** -/
def parse (tokens : List Token) : Parsed (List Declaration) :=
  let input := Program.beforeEnd tokens
  match assembly.declarations (Parser.allowance input) none input with
  | ⟨reports, _, .ok declarations⟩ => ⟨declarations, reports⟩
  | ⟨reports, rest, .error error⟩ => ⟨[], reports ++ [⟨error, rest⟩]⟩

end Looped

end LoxLang
