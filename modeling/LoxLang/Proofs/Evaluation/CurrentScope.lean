import Mathlib
import LoxLang.Proofs.Evaluation.Steps
import LoxLang.Proofs.Store.Growth

/-!
# The current scope is the same afterwards

A block and a call do their work in another scope.  However they end, with a value, with a return, with
a runtime error or with a refusal of the sink, the scope that was current before is current again, and
it still stands where it stood: no scope is ever removed or moved.

* `Machine.Restored` — the current scope is the one it was, among all the scopes there were.
* `Action.Restores` — a step after which it is, however the step ends; one lemma for each way to put
  steps together, and for each step that touches the machine.
* **`Action.Restores.within`** — whatever is done in another scope, the current one is restored.
* **`Action.restores`** — expressions, calls, statements and lists of statements all restore it.
-/

namespace LoxLang

/-- The current scope is the same as before, and so are all links and all names that were bound. -/
structure Machine.Restored (before after : Machine) : Prop where
  current : after.current = before.current
  scopes : before.store.Grows after.store

namespace Machine.Restored

variable {first second third : Machine}

lemma refl (machine : Machine) : machine.Restored machine := ⟨rfl, .refl _⟩

lemma trans (one : first.Restored second) (two : second.Restored third) : first.Restored third :=
  ⟨two.current.trans one.current, one.scopes.trans two.scopes⟩

end Machine.Restored

/-- However a step that began in `before` has ended, the current scope is restored. -/
def Outcome.Restored {α : Type} (before : Machine) : Outcome α → Prop
  | .done _ after => before.Restored after
  | .failed _ after => before.Restored after
  | .exhausted => True

lemma Outcome.Restored.after {α : Type} {first second : Machine} {outcome : Outcome α}
    (one : first.Restored second) (two : outcome.Restored second) : outcome.Restored first := by
  cases outcome with
  | done value after => exact one.trans two
  | failed fault after => exact one.trans two
  | exhausted => trivial

namespace Action

/-- The step restores the current scope, however it ends. -/
def Restores {α : Type} (step : Action α) : Prop := ∀ machine, (step machine).Restored machine

namespace Restores

variable {α β : Type}

/-! ## Putting steps together -/

lemma pure (value : α) : Restores (Pure.pure value) := fun machine => .refl machine

lemma exhausted : Restores (Action.exhausted : Action α) := fun _ => trivial

lemma bind {step : Action α} {next : α → Action β} (first : Restores step)
    (second : ∀ value, Restores (next value)) : Restores (step >>= next) := by
  intro machine
  have one := first machine
  show (Action.bind step next machine).Restored machine
  unfold Action.bind
  cases found : step machine with
  | done value after =>
      rw [found] at one
      exact (second value after).after one
  | failed fault after =>
      rw [found] at one
      exact one
  | exhausted => trivial

/-- **A step in another scope restores the current one**, also if it fails there. -/
lemma within {step : Action α} (inner : Restores step) (scope : Nat) :
    Restores (Action.within scope step) := by
  intro machine
  have inside := inner { machine with current := scope }
  simp only [Action.within]
  cases found : step { machine with current := scope } with
  | done value after =>
      rw [found] at inside
      exact ⟨rfl, inside.scopes⟩
  | failed fault after =>
      rw [found] at inside
      exact ⟨rfl, inside.scopes⟩
  | exhausted => trivial

/-! ## Steps that touch the machine -/

lemma fail (error : RuntimeError) (place : Token) : Restores (Action.fail error place : Action α) :=
  fun machine => Machine.Restored.refl machine

lemma ofExcept (place : Token) (result : Except RuntimeError α) :
    Restores (Action.ofExcept place result) := by
  cases result with
  | ok value => exact pure value
  | error error => exact fail error place

lemma look (name : Token) (hops : Option Nat) : Restores (Action.look name hops) := by
  intro machine
  simp only [Action.look]
  split
  · exact Machine.Restored.refl machine
  · exact Machine.Restored.refl machine

lemma assign (name : Token) (hops : Option Nat) (value : Value) :
    Restores (Action.assign name hops value) := by
  intro machine
  simp only [Action.assign]
  split
  · exact ⟨rfl, .define ..⟩
  · exact Machine.Restored.refl machine

lemma define (name : Token) (value : Value) : Restores (Action.define name value) :=
  fun _ => ⟨rfl, .define ..⟩

lemma declare (name : Token) (parameters : List Token) (body : List Stmt) :
    Restores (Action.declare name parameters body) := fun _ => ⟨rfl, .define ..⟩

lemma openScope (outer : Nat) : Restores (Action.openScope outer) := fun _ => ⟨rfl, .child ..⟩

lemma current : Restores Action.current := fun machine => Machine.Restored.refl machine

lemma bindAll (scope : Nat) (parameters : List Token) (arguments : List Value) :
    Restores (Action.bindAll scope parameters arguments) := by
  intro machine
  refine ⟨rfl, ?_⟩
  have grows : ∀ (bound : List (Token × Value)) (store : Store Value), store.Grows
      (bound.foldl (fun store pair => store.define scope pair.1.lexeme pair.2) store) := by
    intro bound
    induction bound with
    | nil => exact fun store => .refl store
    | cons pair others ih => exact fun store => (Store.Grows.define ..).trans (ih _)
  exact grows _ _

/-- A refusal of the sink leaves the scopes alone. -/
lemma print (text : String) : Restores (Action.print text) := by
  intro machine
  simp only [Action.print]
  split
  · exact ⟨rfl, .refl _⟩
  · exact ⟨rfl, .refl _⟩

lemma callNative (index : Nat) (paren : Token) (arguments : List Value) :
    Restores (Action.callNative index paren arguments) := by
  intro machine
  simp only [Action.callNative]
  split
  · exact ⟨rfl, .refl _⟩
  · split
    · exact Machine.Restored.refl machine
    · exact Machine.Restored.refl machine
  · exact Machine.Restored.refl machine

lemma basic {step : Action α} (basic : step.Basic) : Restores step := by
  cases basic with
  | exhausted => exact exhausted
  | fail error place => exact fail error place
  | ofExcept place result => exact ofExcept place result
  | define name value => exact define name value
  | declare name parameters body => exact declare name parameters body
  | openScope outer => exact openScope outer
  | current => exact current
  | bindAll scope parameters arguments => exact bindAll scope parameters arguments
  | callNative index paren arguments => exact callNative index paren arguments

/-- Putting steps together keeps the property, whatever other steps they are compared with. -/
lemma follows : Steps.own.Follows Steps.own fun _ action => Restores action where
  pure := pure
  bind := bind
  basic := basic
  within scope := fun inner => inner.within scope
  print := print
  look := look
  assign := assign
  around _ := id

end Restores

/-! ## Runs -/

/-- With `n` steps allowed, everything that can be run restores the current scope. -/
structure RestoredRun (n : Nat) : Prop where
  evaluate : ∀ value, Restores (evaluate n value)
  evaluateAll : ∀ values, Restores (evaluateAll n values)
  call : ∀ callee paren arguments, Restores (call n callee paren arguments)
  execute : ∀ stmt, Restores (execute n stmt)
  evaluateOr : ∀ value, Restores (evaluateOr n value)
  executeAll : ∀ stmts, Restores (executeAll n stmts)

/-- **Everything that is run restores the current scope**, with every allowance and on every machine. -/
theorem restores (n : Nat) : RestoredRun n :=
  have run := Restores.follows.program n
  ⟨run.evaluate, run.evaluateAll, run.call, run.execute, run.evaluateOr, run.executeAll⟩

end Action

end LoxLang
