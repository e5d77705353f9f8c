import LoxLang.Proofs.Evaluation.Steps
import LoxLang.Proofs.ForLoop.Tree

/-!
# Running `for` loops as they stand

The direct reading of a `for` loop: a scope is entered for the first clause, if there is one, and the
clause is run once.  Then, as long as the condition holds, the body is run and the increment is
evaluated, all in that one scope.  A return in the body leaves the loop, and so does an error.

Everything else is run by the rules of all runs.  A machine keeps functions with trees that
have no `for` loops, so the bodies are kept beside it, under the numbers of the declaration events.

* `Looped.Direct` — a step of a program that is read directly; `Direct.steps`, the steps it has.
* **`Looped.execute`**, `Looped.round` — statements, and one round of a `for` loop.
* `Looped.perform` — declarations; `Looped.interpret` — whole programs.

A `for` loop spends as much of the allowance as the blocks and loops that stand for it, so that the same
allowance is enough for both.
-/

namespace LoxLang

namespace Looped

/-- The bodies of the functions declared so far, by their declaration events. -/
abbrev Bodies := List (List Declaration)

/-- What came of a step: its outcome and the bodies of the functions declared so far. -/
structure Ending (α : Type) where
  outcome : Outcome α
  bodies : Bodies

/-- A step of a program that is read directly. -/
def Direct (α : Type) := Bodies → Machine → Ending α

namespace Direct

variable {α β : Type}

/-- Yields a value and changes nothing. -/
protected def pure (value : α) : Direct α := fun bodies machine => ⟨.done value machine, bodies⟩

/-- One step after another. -/
protected def bind (first : Direct α) (second : α → Direct β) : Direct β := fun bodies machine =>
  match first bodies machine with
  | ⟨.done value machine, bodies⟩ => second value bodies machine
  | ⟨.failed fault machine, bodies⟩ => ⟨.failed fault machine, bodies⟩
  | ⟨.exhausted, bodies⟩ => ⟨.exhausted, bodies⟩

instance : Monad Direct where
  pure := Direct.pure
  bind := Direct.bind

/-- A step of the machine. -/
def lift (step : Action α) : Direct α := fun bodies machine => ⟨step machine, bodies⟩

/-- Does a step in another scope and returns to the current one, however the step ends. -/
def within (scope : Nat) (step : Direct α) : Direct α := fun bodies machine =>
  let ending := step bodies { machine with current := scope }
  ⟨Action.within scope (fun _ => ending.outcome) machine, ending.bodies⟩

/-- The steps of a program that is read directly. -/
def steps : Steps Direct where
  basic := lift
  within := within

/-- Binds a name in the current scope to a new function. -/
def declare (name : Token) (parameters : List Token) (body : List Declaration) : Direct Unit :=
  fun bodies machine => ⟨Action.declare name parameters [] machine, bodies ++ [body]⟩

/-- The body of a function. -/
def bodyOf (event : Nat) : Direct (List Declaration) := fun bodies machine =>
  ⟨.done ((bodies[event]?).getD []) machine, bodies⟩

end Direct

open Direct (steps)
open Steps (ofExprs ofOption dropping choosing repeating inOrder)

mutual

/-- What an expression yields. -/
def evaluate : Nat → Expr → Direct Value
  | 0, _ => steps.basic .exhausted
  | n + 1, value => steps.ofExpr (fun value => evaluate n value) (fun values => evaluateAll n values)
      (fun callee paren arguments => call n callee paren arguments) value
termination_by n => 2 * n

/-- What expressions yield, from the first to the last. -/
def evaluateAll : Nat → List Expr → Direct (List Value)
  | 0, _ => steps.basic .exhausted
  | n + 1, values => ofExprs (fun value => evaluate n value) (fun values => evaluateAll n values) values
termination_by n => 2 * n

/-- What a call yields whose parts have been evaluated. -/
def call : Nat → Value → Token → List Value → Direct Value
  | 0, _, _, _ => steps.basic .exhausted
  | n + 1, callee, paren, arguments =>
    steps.ofCall (fun event _ => do performAll n (← Direct.bodyOf event)) callee paren arguments
termination_by n => 2 * n

/-- What a statement does. -/
def execute : Nat → Statement → Direct Completion
  | 0, _ => steps.basic .exhausted
  | n + 1, .expression value => dropping (evaluate n value)
  | n + 1, .print value => steps.printing (evaluate n value)
  | n + 1, .block body => steps.inScope (performAll n body)
  | n + 1, .branch condition consequent alternative =>
    choosing (evaluate n condition) (execute n consequent)
      (match alternative with
        | some alternative => execute n alternative
        | none => return .normal)
  | n + 1, .loop condition body =>
    repeating (evaluate n condition) (execute n body) (execute n (.loop condition body))
  | n + 1, .forLoop (some first) condition increment body =>
    steps.inScope do
      prepare (n - 1) first
      execute (n - 2) (.forLoop none condition increment body)
  | n + 1, .forLoop none condition increment body =>
    repeating (evaluate n (condition.getD (.literal (.bool true)))) (round n body increment)
      (execute n (.forLoop none condition increment body))
  | n + 1, .return_ _ value => steps.returning (evaluateOr n value)
termination_by n => 2 * n

/-- One round of a `for` loop: the body and then the increment, unless the body returned. -/
def round : Nat → Statement → Option Expr → Direct Completion
  | n, body, none => execute n body
  | n, body, some step => inOrder (execute (n - 2) body) (dropping (evaluate (n - 4) step))
termination_by n => 2 * n + 1

/-- What the first clause of a `for` loop does. -/
def prepare : Nat → Initializer → Direct Unit
  | 0, _ => steps.basic .exhausted
  | n + 1, .variable name value => do
    let value ← evaluateOr n value
    steps.basic (.define name value)
  | n + 1, .expression value => do
    let _ ← evaluate n value
    return ()
termination_by n => 2 * n

/-- What an expression yields that may be missing; nil if it is. -/
def evaluateOr : Nat → Option Expr → Direct Value
  | 0, _ => steps.basic .exhausted
  | n + 1, value => ofOption (fun value => evaluate n value) value
termination_by n => 2 * n

/-- What a declaration does. -/
def perform : Nat → Declaration → Direct Completion
  | 0, _ => steps.basic .exhausted
  | n + 1, .variable name preparer => steps.defining name (evaluateOr n preparer)
  | _ + 1, .function name parameters body => do
    Direct.declare name parameters body
    return .normal
  | n + 1, .statement stmt => execute (n + 1) stmt
termination_by n => 2 * n + 1

/-- What declarations do, up to the first that returns. -/
def performAll : Nat → List Declaration → Direct Completion
  | 0, _ => steps.basic .exhausted
  | _ + 1, [] => return .normal
  | n + 1, first :: others => inOrder (perform n first) (performAll n others)
termination_by n => 2 * n

end

/-- Runs a program and flushes the sink. -/
def interpret (allowance : Nat) (program : List Declaration) (bodies : Bodies) (machine : Machine) :
    Option (Option Fault × Machine) × Bodies :=
  let ending := performAll allowance program bodies machine
  (ending.outcome.flushed, ending.bodies)

end Looped

end LoxLang
