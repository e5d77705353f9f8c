import LoxLang.Proofs.Evaluation.Noting

/-!
# Where functions come from and where they meet

Functions are compared by identity, so to say what a comparison ought to yield one has to know which
execution of which declaration each of the two functions came from.  An annotated run does exactly what
the run does and notes two things on the way: what each declaration produces, and the values that meet
at each binary operator.

* `Note` — a function is produced, or two values meet at an operator; `Note.ofPoint`, what is noted at a
  point of a run.
* `Annotated` — a step with its notes; `Annotated.steps`, the steps of an annotated run.
* **`Annotated.faithful`** — leaving out the notes gives back the run, step for step.
-/

namespace LoxLang

/-- Something that happens to functions during a run. -/
inductive Note where
  /-- A declaration was executed, or a function of the host was registered, and this came of it. -/
  | produced (function : Value)
  /-- Both operands of an operator are known. -/
  | meet (operator : Token) (left right : Value)

/-- The function that a declaration produces. -/
def Machine.function (machine : Machine) (name : Token) (parameters : List Token)
    (body : List Stmt) : Value :=
  .function machine.events ⟨name, parameters, body, machine.current⟩

/-- What is noted at a point of a run. -/
def Note.ofPoint : Point → Machine → List Note
  | .meets operator left right, _ => [meet operator left right]
  | .declares name parameters body, machine => [produced (machine.function name parameters body)]
  | _, _ => []

/-- An annotated step of a program. -/
abbrev Annotated : Type → Type := Noting Note

namespace Annotated

/-- The steps of an annotated run. -/
def steps : Steps Annotated := Noting.steps Note.ofPoint

/-- With `n` steps allowed, annotating changes nothing. -/
abbrev Faithful (n : Nat) : Prop := steps.Tells Noting.Erases n

/-- **An annotated run does what the run does.** -/
theorem faithful (n : Nat) : Faithful n := Noting.faithful _ n

end Annotated

end LoxLang
