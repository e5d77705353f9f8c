import LoxLang.Proofs.Evaluation.Watch

/-!
# Visits tell all that is read and assigned

Leaving out the notes of a watched run gives back the run, but that alone does not say that a note was
made each time.  So a run is done again here by a reader who cannot read or assign a variable himself:
he is given the visits, and the next of them has to tell him what comes of it.

* `Replay` — a step that has the visits that are left to go by.
* `Replay.steps` — its steps: each read and each assignment takes one visit, and must be the one that
  was noted.
* **`Watch.replayed`** — with the visits of a watched run the reader comes to the outcome of that run and
  uses up all of them, however many he is given behind.
-/

namespace LoxLang

/-- A step that goes by the visits that are left.  There is nothing if they do not fit. -/
def Replay (α : Type) := List Visit → Machine → Option (Outcome α × List Visit)

namespace Replay

variable {α β : Type}

protected def pure (value : α) : Replay α := fun visits machine => some (.done value machine, visits)

/-- One step after another. -/
protected def bind (first : Replay α) (second : α → Replay β) : Replay β := fun visits machine =>
  match first visits machine with
  | none => none
  | some (.done value machine, visits) => second value visits machine
  | some (.failed fault machine, visits) => some (.failed fault machine, visits)
  | some (.exhausted, visits) => some (.exhausted, visits)

instance : Monad Replay where
  pure := Replay.pure
  bind := Replay.bind

/-- A step for which no visit is needed. -/
def lift (step : Action α) : Replay α := fun visits machine => some (step machine, visits)

/-- A step that is left to the next visit: that has to be one of the variable, and what comes of the
step is settled by the state that was noted. -/
def visited (assigned : Bool) (name : Token) (hops : Option Nat) (step : Action α) : Replay α
  | [], _ => none
  | visit :: visits, _ =>
    if visit.occurrence = ⟨assigned, name, hops⟩ then some (step visit.machine, visits) else none

/-- Does a step in another scope and returns to the current one. -/
def within (scope : Nat) (step : Replay α) : Replay α := fun visits machine =>
  (step visits { machine with current := scope }).map fun (outcome, visits) =>
    (Action.within scope (fun _ => outcome) machine, visits)

/-- The steps of a run that goes by visits. -/
def steps : Steps Replay where
  basic := lift
  within := within
  look name hops := visited false name hops (.look name hops)
  assign name hops value := visited true name hops (.assign name hops value)

/-- The visits of a watched step, with any behind them, are those that a step needs, and lead to the
same. -/
def Retells (watched : Watch α) (replay : Replay α) : Prop :=
  ∀ here origins machine behind, replay ((watched here origins machine).visits ++ behind) machine =
    some ((watched here origins machine).outcome, behind)

namespace Retells

lemma visiting (assigned : Bool) (name : Token) (hops : Option Nat) (step : Action α) :
    Retells (Watch.visiting assigned name hops step) (Replay.visited assigned name hops step) := by
  intro here origins machine behind
  exact if_pos rfl

lemma bind {watched : Watch α} {replay : Replay α} {next : α → Watch β} {follow : α → Replay β}
    (first : Retells watched replay) (second : ∀ value, Retells (next value) (follow value)) :
    Retells (watched >>= next) (replay >>= follow) := by
  intro here origins machine behind
  show Replay.bind replay follow ((Watch.bind watched next here origins machine).visits ++ behind)
    machine = some ((Watch.bind watched next here origins machine).outcome, behind)
  have one := first here origins machine
  unfold Replay.bind Watch.bind
  generalize watched here origins machine = step at one ⊢
  obtain ⟨outcome, origins', visits⟩ := step
  cases outcome with
  | done value machine' =>
      -- the first step leaves the visits of the second
      simp only [List.append_assoc, one]
      exact second value here origins' machine' behind
  | failed fault machine' => simp only [one]
  | exhausted => simp only [one]

lemma within {watched : Watch α} {replay : Replay α} (scope : Nat) (inner : Retells watched replay) :
    Retells (Watch.within scope watched) (Replay.within scope replay) := by
  intro here origins machine behind
  simp only [Watch.within, Replay.within, inner (here.enter scope) origins _ behind, Option.map_some]

lemma around {watched : Watch α} {replay : Replay α} (point : Point) (inner : Retells watched replay) :
    Retells (Watch.around point watched) replay := by
  intro here origins machine behind
  cases point <;> exact inner _ _ machine behind

end Retells

lemma follows : Watch.steps.Follows steps Retells where
  pure _ _ _ _ _ := rfl
  bind := Retells.bind
  basic _ _ _ _ _ := rfl
  within scope := Retells.within scope
  print _ _ _ _ _ := rfl
  look _ _ := Retells.visiting _ _ _ _
  assign _ _ _ := Retells.visiting _ _ _ _
  around point := Retells.around point

end Replay

namespace Watch

/-- With `n` steps allowed, the visits of a run tell all that it reads and assigns. -/
abbrev Replayed (n : Nat) : Prop := steps.Agrees Replay.steps Replay.Retells n

/-- **Every read and every assignment is visited.** -/
theorem replayed (n : Nat) : Replayed n := Replay.follows.run n

end Watch

end LoxLang
