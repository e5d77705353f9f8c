import LoxLang.Token.Basic

/-!
# Diagnostics

* `Diagnostic` — a problem as it is told to the user: where it stands and what is wrong.
* **`Diagnostic.message`** — its full wording.
* `Log` — diagnostics that wait to be shown, and two flags that say what happened since they were
  last cleared.
-/

namespace LoxLang

/-- A problem in a program, or with its output. -/
inductive Diagnostic where
  | lexical (line : Nat) (text : String)
  | grammatical (place : Token) (text : String)
  | scoping (place : Token) (text : String)
  | runtime (line : Nat) (text : String)
  | output (text : String)
  deriving DecidableEq, Repr

namespace Diagnostic

/-- The line of a problem, if it has one. -/
def line? : Diagnostic → Option Nat
  | lexical line _ => some line
  | grammatical place _ => some place.line
  | scoping place _ => some place.line
  | runtime line _ => some line
  | output _ => none

/-- How a token is named as the place of a problem. -/
def location (place : Token) : String :=
  if place.isEnd then " at end" else " at '" ++ place.lexeme ++ "'"

/-- The line in front of a problem that was found before the program ran. -/
def headed (line : Nat) (location text : String) : String :=
  "[line " ++ line.repr ++ "] Error" ++ location ++ ": " ++ text

/-- The full wording of a problem. -/
def message : Diagnostic → String
  | lexical line text => headed line "" text
  | grammatical place text => headed place.line (location place) text
  | scoping place text => headed place.line (location place) text
  | runtime line text => text ++ "\n[line " ++ line.repr ++ "]"
  | output text => text

/-- Whether a problem belongs to a running program. -/
def isRuntime : Diagnostic → Bool
  | runtime _ _ => true
  | _ => false

end Diagnostic

/-- Diagnostics that wait to be shown. -/
structure Log where
  /-- In the order in which they were reported. -/
  pending : List Diagnostic
  /-- Whether one that does not belong to a running program was reported. -/
  hadError : Bool
  /-- Whether one that belongs to a running program was reported. -/
  hadRuntimeError : Bool
  deriving DecidableEq, Repr

namespace Log

/-- A log in which nothing was reported. -/
def empty : Log := ⟨[], false, false⟩

/-- Adds a diagnostic and raises its flag. -/
def report (log : Log) (diagnostic : Diagnostic) : Log :=
  ⟨log.pending ++ [diagnostic], log.hadError || !diagnostic.isRuntime,
    log.hadRuntimeError || diagnostic.isRuntime⟩

/-- Adds diagnostics in their order. -/
def reportAll (log : Log) (diagnostics : List Diagnostic) : Log :=
  diagnostics.foldl report log

/-- The diagnostics that wait, and the log without them; the flags stay. -/
def take (log : Log) : List Diagnostic × Log :=
  (log.pending, { log with pending := [] })

/-- Clears the flags; the diagnostics stay. -/
def reset (log : Log) : Log := ⟨log.pending, false, false⟩

end Log

end LoxLang
