import LoxLang.Compilation
import LoxLang.Evaluation.Run

/-!
# Sessions

A session takes programs and expressions one after another.  Global names, functions and what the
sink keeps back live on from one step to the next.

* `Session` — the machine and the log of diagnostics.
* `Session.behindRun`, `Session.behindValue` — how a step ends once something was executed.
* **`Session.run`** — runs a program; **`Session.evaluate`** — evaluates one expression, whose names
  are all global.

Both yield nothing at all when the allowance for the evaluation is used up.
-/

namespace LoxLang

/-- What a fault is told as. -/
def Fault.diagnostic : Fault → Diagnostic
  | runtime error line => .runtime line error.message
  | output error => .output error.message

/-- How a step of a session ended. -/
inductive Status where
  | completed
  /-- Something was wrong with the text, and nothing was executed. -/
  | compileError
  /-- The execution was stopped. -/
  | runtimeError
  deriving DecidableEq, Repr

/-- The exit code of a program that ended this way. -/
def Status.exitCode : Status → Nat
  | completed => 0
  | compileError => 65
  | runtimeError => 70

/-- Programs and expressions that share their globals. -/
structure Session where
  machine : Machine
  log : Log

namespace Session

/-- A session at its start. -/
def start (sink : Sink) (clock : Nat → Float) : Session := ⟨.start sink clock, .empty⟩

/-- How the run of a program ends a step. -/
def behindRun (log : Log) : Option (Option Fault × Machine) → Option (Status × Session)
  | none => none
  | some (none, machine) => some (.completed, ⟨machine, log⟩)
  | some (some fault, machine) => some (.runtimeError, ⟨machine, log.report fault.diagnostic⟩)

/-- How the value of an expression ends a step. -/
def behindValue (log : Log) : Outcome Value → Option (Except Status Value × Session)
  | .done value machine => some (.ok value, ⟨machine, log⟩)
  | .failed fault machine => some (.error .runtimeError, ⟨machine, log.report fault.diagnostic⟩)
  | .exhausted => none

/-- Runs a program that has been compiled. -/
def runOf (allowance : Nat) (compilation : Compilation) (session : Session) :
    Option (Status × Session) :=
  let log := session.log.reset.reportAll compilation.problems
  match compilation.runnable? with
  | none => some (.compileError, { session with log })
  | some program => behindRun log (session.machine.interpret allowance program)

/-- Evaluates an expression that has been read. -/
def evaluateOf (allowance : Nat) (told : Option Expr × List Diagnostic) (session : Session) :
    Option (Except Status Value × Session) :=
  let log := session.log.reset.reportAll told.2
  match told.1, told.2 with
  | some expression, [] => behindValue log (Action.evaluate allowance expression session.machine)
  | _, _ => some (.error .compileError, { session with log })

/-- Runs a program. -/
def run (allowance : Nat) (source : String) (session : Session) : Option (Status × Session) :=
  session.runOf allowance (.ofSource source)

/-- Evaluates an expression; yields its value, or how the step ended without one. -/
def evaluate (allowance : Nat) (source : String) (session : Session) :
    Option (Except Status Value × Session) :=
  session.evaluateOf allowance (Program.readExpression source)

/-- The diagnostics that wait to be shown, and the session without them. -/
def takeDiagnostics (session : Session) : List Diagnostic × Session :=
  let (diagnostics, log) := session.log.take
  (diagnostics, { session with log })

/-- What has arrived at the sink, and the session without it. -/
def takeOutput (session : Session) : String × Session :=
  let (text, sink) := session.machine.sink.take
  (text, { session with machine := { session.machine with sink } })

end Session

end LoxLang
