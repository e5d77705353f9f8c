import LoxLang.Proofs.Binding.Region
import LoxLang.Proofs.Evaluation.Steps

/-!
# Watching a program run

To say where the variables of a running program are found, one has to look into the run: at every
moment at which an occurrence is read or assigned, and at the blocks and calls that the program is
inside of then.  A watched run does exactly what the run does and notes this on the way.

* `Instance` — a scope at run time, with the place of the block or function that it is a scope of.
* `Position` — where a program is: a place in the source, and the instances of the regions around it.
  Entering a block adds an instance.  Calling a function goes to the position in which that function
  was declared, and adds an instance there: this is what lexical scoping means.
* `Visit` — a moment at which an occurrence is read or assigned.
* `Watch.steps` — the steps of a watched run.
* **`Watch.faithful`** — leaving out the notes gives back the run, step for step.
-/

namespace LoxLang

/-- A scope at run time, with the place of the statement that opens such scopes. -/
structure Instance where
  site : Place
  scope : Nat

/-- Where a program is: a place in the source, and the instances of the blocks and functions around
it, the innermost first. -/
structure Position where
  place : Place
  display : List Instance

namespace Position

/-- The position of a part of the statement at a position. -/
def turn (position : Position) (index : Nat) : Position :=
  { position with place := index :: position.place }

/-- The position of what follows the statement at a position in a body. -/
def next : Position → Position
  | ⟨index :: place, display⟩ => ⟨(index + 1) :: place, display⟩
  | ⟨[], display⟩ => ⟨[], display⟩

/-- The position inside the block or function at a position, once its scope is made. -/
def enter (position : Position) (scope : Nat) : Position :=
  { position with display := ⟨position.place, scope⟩ :: position.display }

end Position

/-- A moment at which an occurrence is read or assigned: before the store is asked for it. -/
structure Visit where
  occurrence : Occurrence
  position : Position
  machine : Machine

/-- What came of a watched step: its outcome, for each function declared so far the position of its
declaration, and the visits that were made. -/
structure Watched (α : Type) where
  outcome : Outcome α
  origins : List Position
  visits : List Visit

/-- A watched step of a program, from a position. -/
def Watch (α : Type) := Position → List Position → Machine → Watched α

namespace Watch

variable {α β : Type}

/-- Yields a value, changes nothing and notes nothing. -/
protected def pure (value : α) : Watch α := fun _ origins machine =>
  ⟨.done value machine, origins, []⟩

/-- One watched step after another, both from the same position. -/
protected def bind (first : Watch α) (second : α → Watch β) : Watch β := fun here origins machine =>
  match first here origins machine with
  | ⟨.done value machine, origins, visits⟩ =>
    let step := second value here origins machine
    ⟨step.outcome, step.origins, visits ++ step.visits⟩
  | ⟨.failed fault machine, origins, visits⟩ => ⟨.failed fault machine, origins, visits⟩
  | ⟨.exhausted, origins, visits⟩ => ⟨.exhausted, origins, visits⟩

instance : Monad Watch where
  pure := Watch.pure
  bind := Watch.bind

/-- A step of which nothing is noted. -/
def lift (step : Action α) : Watch α := fun _ origins machine => ⟨step machine, origins, []⟩

/-- A step that reads or assigns a variable, with the visit that it makes. -/
def visiting (assigned : Bool) (name : Token) (hops : Option Nat) (step : Action α) : Watch α :=
  fun here origins machine => ⟨step machine, origins, [⟨⟨assigned, name, hops⟩, here, machine⟩]⟩

/-- Does a watched step inside another scope and returns to the current one. -/
def within (scope : Nat) (step : Watch α) : Watch α := fun here origins machine =>
  let watched := step (here.enter scope) origins { machine with current := scope }
  ⟨Action.within scope (fun _ => watched.outcome) machine, watched.origins, watched.visits⟩

/-- Goes to a part of a statement; to the declaration of a function that is called; and notes where a
function is declared. -/
def around : Point → Watch α → Watch α
  | .part index, step => fun here => step (here.turn index)
  | .next, step => fun here => step here.next
  | .enters event, step => fun _ origins => step ((origins[event]?).getD ⟨[], []⟩) origins
  | .declares _ _ _, step => fun here origins => step here (origins ++ [here])
  | _, step => step

/-- The steps of a watched run. -/
def steps : Steps Watch where
  basic := lift
  within := within
  look name hops := visiting false name hops (.look name hops)
  assign name hops value := visiting true name hops (.assign name hops value)
  around := around

@[simp] lemma steps_basic (step : Action α) : steps.basic step = lift step := rfl

@[simp] lemma steps_within (scope : Nat) (step : Watch α) :
    steps.within scope step = within scope step := rfl

@[simp] lemma steps_look (name : Token) (hops : Option Nat) :
    steps.look name hops = visiting false name hops (.look name hops) := rfl

@[simp] lemma steps_assign (name : Token) (hops : Option Nat) (value : Value) :
    steps.assign name hops value = visiting true name hops (.assign name hops value) := rfl

@[simp] lemma steps_meets (operator : Token) (left right : Value) (step : Watch α) :
    steps.around (.meets operator left right) step = step := rfl

/-- The body of a function runs where the function was declared. -/
lemma steps_enters (event : Nat) (step : Watch α) (here : Position) (origins : List Position)
    (machine : Machine) : steps.around (.enters event) step here origins machine
      = step ((origins[event]?).getD ⟨[], []⟩) origins machine := rfl

/-! ## Watching changes nothing -/

/-- A watched step has the outcome of a step. -/
def Erases (watched : Watch α) (step : Action α) : Prop :=
  ∀ here origins machine, (watched here origins machine).outcome = step machine

namespace Erases

lemma bind {watched : Watch α} {step : Action α} {next : α → Watch β} {follow : α → Action β}
    (first : Erases watched step) (second : ∀ value, Erases (next value) (follow value)) :
    Erases (watched >>= next) (step >>= follow) := by
  intro here origins machine
  show (Watch.bind watched next here origins machine).outcome = Action.bind step follow machine
  unfold Watch.bind Action.bind
  rw [← first here origins machine]
  rcases watched here origins machine with ⟨outcome, origins', visits⟩
  cases outcome with
  | done value machine' => exact second value here origins' machine'
  | failed fault machine' => rfl
  | exhausted => rfl

lemma within {watched : Watch α} {step : Action α} (scope : Nat) (inner : Erases watched step) :
    Erases (Watch.within scope watched) (Action.within scope step) := by
  intro here origins machine
  simp only [Watch.within, Action.within]
  rw [inner]

lemma around {watched : Watch α} {step : Action α} (point : Point) (inner : Erases watched step) :
    Erases (Watch.around point watched) step := by
  intro here origins machine
  cases point <;> exact inner _ _ machine

end Erases

lemma follows : steps.Follows Steps.own Erases where
  pure _ _ _ _ := rfl
  bind := Erases.bind
  basic _ _ _ _ := rfl
  within scope := Erases.within scope
  print _ _ _ _ := rfl
  look _ _ _ _ _ := rfl
  assign _ _ _ _ _ _ := rfl
  around point := Erases.around point

/-- With `n` steps allowed, watching changes nothing. -/
abbrev Faithful (n : Nat) : Prop := steps.Tells Erases n

/-- **A watched run does what the run does.** -/
theorem faithful (n : Nat) : Faithful n := follows.program n

end Watch

end LoxLang
