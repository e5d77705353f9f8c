import LoxLang.CommandLine.File
import LoxLang.Session
import LoxLang.Text.Glyph

/-!
# What the program writes

* `Reply` — an exit code with what goes to standard output and to standard error.
* `Reply.tokenize`, `Reply.parse`, `Reply.evaluate`, `Reply.run` — one answer for each command that
  works on a source text.
* **`Reply.onText`** — an answer for the text of a file, or for a file that cannot be read.
-/

namespace LoxLang

/-- What the program writes, and how it ends. -/
structure Reply where
  exitCode : Nat
  output : String
  errors : String
  deriving DecidableEq, Repr

/-- Texts as lines, each with a line end. -/
def asLines (texts : List String) : String := String.join (texts.map (· ++ "\n"))

/-- Diagnostics as lines. -/
def Diagnostic.listed (diagnostics : List Diagnostic) : String :=
  asLines (diagnostics.map message)

namespace Reply

/-! ## Source texts -/

/-- The exit code for a text with or without problems. -/
def codeFor (problems : List Diagnostic) : Nat :=
  if problems.isEmpty then Status.completed.exitCode else Status.compileError.exitCode

/-- The tokens of a source text, as lines or as a document. -/
def tokenize (json : Bool) (source : String) : Reply :=
  let items := Scan.items source
  let tokens := Scan.tokens items
  let problems := (Scan.faults items).map LexicalFault.diagnostic
  let shown := if json then [(Json.list (tokens.map Token.json)).indented]
    else tokens.map Token.shown
  ⟨codeFor problems, asLines shown, Diagnostic.listed problems⟩

/-- The statements of a source text in prefix form, or what is wrong with the text. -/
def parse (source : String) : Reply :=
  match Program.read source with
  | (program, []) => ⟨codeFor [], asLines (program.map Stmt.shown), ""⟩
  | (_, problems) => ⟨codeFor problems, "", Diagnostic.listed problems⟩

/-- The value of the expression in a source text. -/
def evaluate (allowance : Nat) (session : Session) (source : String) : Option Reply :=
  (session.evaluate allowance source).map fun (result, session) =>
    let errors := Diagnostic.listed session.takeDiagnostics.1
    match result with
    | .ok value => ⟨Status.completed.exitCode, asLines [value.shown], errors⟩
    | .error status => ⟨status.exitCode, "", errors⟩

/-- The output of a program. -/
def run (allowance : Nat) (session : Session) (source : String) : Option Reply :=
  (session.run allowance source).map fun (status, session) =>
    ⟨status.exitCode, session.takeOutput.1, Diagnostic.listed session.takeDiagnostics.1⟩

/-! ## Failures of the program itself -/

/-- A failure with the reason behind it. -/
def failure (text cause : String) : Reply :=
  ⟨1, "", "Error: " ++ text ++ "\n\nCaused by:\n    " ++ cause ++ "\n"⟩

/-- The answer to arguments that ask for nothing the program does. -/
def usage : Reply :=
  ⟨2, "", "error: expected one of tokenize, parse, evaluate, run, repl\n"⟩

/-- A character of a quoted file name: the quote, the backslash and what cannot be seen are escaped,
some by a letter and all others by their code point. -/
def escape (c : Char) : List Char :=
  if c = '"' then ['\\', '"']
  else if c = '\\' then ['\\', '\\']
  else if c = '\x00' then ['\\', '0']
  else if c = '\n' then ['\\', 'n']
  else if c = '\r' then ['\\', 'r']
  else if c = '\t' then ['\\', 't']
  else if Glyph.isVisible c then [c]
  else ['\\', 'u', '{'] ++ Nat.toDigits 16 c.toNat ++ ['}']

/-- A file name in quotes. -/
def quoted (name : String) : String :=
  "\"" ++ String.ofList (name.toList.flatMap escape) ++ "\""

/-- The answer for the text of the file called `name`, given its bytes or why they are not there. -/
def onText (name : String) (content : Except FileFault (List UInt8))
    (answer : String → Option Reply) : Option Reply :=
  match content with
  | .error fault =>
    some (failure ("Failed to " ++ fault.attempt ++ " file " ++ quoted name) fault.cause)
  | .ok bytes =>
    match Utf8.decode bytes with
    | .ok text => answer text
    | .error fault =>
      some (failure ("File " ++ quoted name ++ " is not valid UTF-8") fault.message)

end Reply

end LoxLang
