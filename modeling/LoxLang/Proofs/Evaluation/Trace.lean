import LoxLang.Proofs.Evaluation.Noting

/-!
# The moments of a run

Where a return leads to is seen in the order of what happens: which statements and expressions are
begun, which functions are entered, which returns are reached, and which calls are left with which
value.  A traced run does exactly what the run does and notes this on the way.

* `Moment` — something that happens during a run; `Moment.ofPoint`, what happens at a point of it.
* `Traced` — a step with the moments on its way; `Traced.steps`, the steps of a traced run.
* **`Traced.faithful`** — leaving out the moments gives back the run, step for step.
-/

namespace LoxLang

/-- Something that happens during a run. -/
inductive Moment where
  /-- The evaluation of an expression begins. -/
  | expression (value : Expr)
  /-- A statement begins; a loop begins again in each round. -/
  | statement (stmt : Stmt)
  /-- The body of a function begins, which a declaration of this number made. -/
  | enters (event : Nat)
  /-- A return is reached and its value is known. -/
  | returns (value : Value)
  /-- The call of a function ends and yields a value. -/
  | leaves (event : Nat) (value : Value)

/-- What happens at a point of a run. -/
def Moment.ofPoint : Point → List Moment
  | .expression value => [expression value]
  | .statement stmt => [statement stmt]
  | .enters event => [enters event]
  | .returns value => [returns value]
  | .leaves event value => [leaves event value]
  | _ => []

/-- A traced step of a program. -/
abbrev Traced : Type → Type := Noting Moment

namespace Traced

/-- The steps of a traced run. -/
def steps : Steps Traced := Noting.steps fun point _ => Moment.ofPoint point

/-- With `n` steps allowed, tracing changes nothing. -/
abbrev Faithful (n : Nat) : Prop := steps.Tells Noting.Erases n

/-- **A traced run does what the run does.** -/
theorem faithful (n : Nat) : Faithful n := Noting.faithful _ n

end Traced

end LoxLang
