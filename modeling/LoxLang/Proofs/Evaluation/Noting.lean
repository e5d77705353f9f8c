import LoxLang.Proofs.Evaluation.Steps

/-!
# Runs that make notes

A run can be told by what it notes on its way: at each point that it comes to, and in the order in which
it comes to them.  Which notes are made at a point is left open here.

* `Noted` — what was noted during a step, with its outcome; `Noting` — a step that makes notes.
* `Noting.steps` — the steps of a run that makes notes.
* **`Noting.faithful`** — without the notes it is the run.
-/

namespace LoxLang

/-- What came of a step: the notes made on its way, and its outcome. -/
structure Noted (ε α : Type) where
  notes : List ε
  outcome : Outcome α

/-- A step of a program that makes notes. -/
def Noting (ε α : Type) := Machine → Noted ε α

namespace Noting

variable {ε α β : Type}

/-- Yields a value and notes nothing. -/
protected def pure (value : α) : Noting ε α := fun machine => ⟨[], .done value machine⟩

/-- One step after another. -/
protected def bind (first : Noting ε α) (second : α → Noting ε β) : Noting ε β := fun machine =>
  match first machine with
  | ⟨notes, .done value machine⟩ =>
    let step := second value machine
    ⟨notes ++ step.notes, step.outcome⟩
  | ⟨notes, .failed fault machine⟩ => ⟨notes, .failed fault machine⟩
  | ⟨notes, .exhausted⟩ => ⟨notes, .exhausted⟩

instance : Monad (Noting ε) where
  pure := Noting.pure
  bind := Noting.bind

/-- A step of which nothing is noted. -/
def lift (step : Action α) : Noting ε α := fun machine => ⟨[], step machine⟩

/-- A step with notes in front of it. -/
def behind (notes : Machine → List ε) (step : Noting ε α) : Noting ε α := fun machine =>
  let noted := step machine
  ⟨notes machine ++ noted.notes, noted.outcome⟩

/-- Does a step in another scope and returns to the current one. -/
def within (scope : Nat) (step : Noting ε α) : Noting ε α := fun machine =>
  let noted := step { machine with current := scope }
  ⟨noted.notes, Action.within scope (fun _ => noted.outcome) machine⟩

/-- The steps of a run that notes something at each point. -/
def steps (notes : Point → Machine → List ε) : Steps (Noting ε) where
  basic := lift
  within := within
  around point := behind (notes point)

/-! ## Notes change nothing -/

/-- A step that makes notes has the outcome of a step. -/
def Erases (noting : Noting ε α) (step : Action α) : Prop :=
  ∀ machine, (noting machine).outcome = step machine

namespace Erases

lemma bind {noting : Noting ε α} {step : Action α} {next : α → Noting ε β} {follow : α → Action β}
    (first : Erases noting step) (second : ∀ value, Erases (next value) (follow value)) :
    Erases (noting >>= next) (step >>= follow) := by
  intro machine
  show (Noting.bind noting next machine).outcome = Action.bind step follow machine
  unfold Noting.bind Action.bind
  rw [← first machine]
  rcases noting machine with ⟨notes, outcome⟩
  cases outcome with
  | done value machine' => exact second value machine'
  | failed fault machine' => rfl
  | exhausted => rfl

lemma within {noting : Noting ε α} {step : Action α} (scope : Nat) (inner : Erases noting step) :
    Erases (Noting.within scope noting) (Action.within scope step) := by
  intro machine
  simp only [Noting.within, Action.within]
  rw [inner]

end Erases

variable (notes : Point → Machine → List ε)

lemma follows : (steps notes).Follows Steps.own Erases where
  pure _ _ := rfl
  bind := Erases.bind
  basic _ _ := rfl
  within scope := Erases.within scope
  print _ _ := rfl
  look _ _ _ := rfl
  assign _ _ _ _ := rfl
  around _ := id

/-- With `n` steps allowed, a run that makes notes does what the run does. -/
abbrev Faithful (n : Nat) : Prop := (steps notes).Tells Erases n

/-- **Making notes changes nothing.** -/
theorem faithful (n : Nat) : Faithful notes n := (follows notes).program n

end Noting

end LoxLang
