import LoxLang.Evaluation.Operator
import Mathlib

/-!
# What two runs have in common

Two programs that ought to do the same are run next to each other.  Whatever relates their machines
grows with the runs, and their values differ in the functions alone, which carry trees and scopes.  No
operator and no condition looks into a function.

* `getElem?_left` — what is known of a list is known of a longer one.
* `rel_imp`, `rel_map`, `rel_bind` — what two optional values have in common is weakened, and carried
  on to what is made of them.
* `Value.Alike` — the same values, up to the trees and the scopes of functions.
* **`Value.Alike.combined_eq`** — operators give the same for values that are alike; `prefixed_eq`,
  `isTruthy_eq` and `shown_eq` say so for the other questions a program asks.
* `OperatorResult` — operators give no functions.
-/

namespace LoxLang

lemma getElem?_left {α : Type} {values values' : List α} (longer : values <+: values') {i : Nat}
    {value : α} (found : values[i]? = some value) : values'[i]? = some value := by
  obtain ⟨later, rfl⟩ := longer
  rw [List.getElem?_append_left (List.getElem?_eq_some_iff.mp found).1]
  exact found

lemma rel_imp {α β : Type} {R S : α → β → Prop} {a : Option α} {b : Option β}
    (related : Option.Rel R a b) (imp : ∀ x y, R x y → S x y) : Option.Rel S a b := by
  cases related with
  | none => exact Option.Rel.none
  | some found => exact Option.Rel.some (imp _ _ found)

lemma rel_map {α β γ δ : Type} {R : α → β → Prop} {S : γ → δ → Prop} {a : Option α} {b : Option β}
    {f : α → γ} {g : β → δ} (related : Option.Rel R a b) (map : ∀ x y, R x y → S (f x) (g y)) :
    Option.Rel S (a.map f) (b.map g) := by
  cases related with
  | none => exact Option.Rel.none
  | some found => exact Option.Rel.some (map _ _ found)

lemma rel_bind {α β γ δ : Type} {R : α → β → Prop} {S : γ → δ → Prop} {a : Option α} {b : Option β}
    {f : α → Option γ} {g : β → Option δ} (related : Option.Rel R a b)
    (next : ∀ x y, R x y → Option.Rel S (f x) (g y)) : Option.Rel S (a.bind f) (b.bind g) := by
  cases related with
  | none => exact Option.Rel.none
  | some found => exact next _ _ found

lemma exists_of_rel {α β : Type} {R : α → β → Prop} {a : α} {b : Option β}
    (related : Option.Rel R (some a) b) : ∃ found, b = some found ∧ R a found := by
  cases related with
  | some found' => exact ⟨_, rfl, found'⟩

lemma eq_none_of_rel {α β : Type} {R : α → β → Prop} {b : Option β}
    (related : Option.Rel R none b) : b = none := by
  cases related with
  | none => rfl

namespace Value

/-- Two values are equal, or functions of the same declaration event with the same name. -/
def Alike (value other : Value) : Prop :=
  value = other ∨ ∃ event closure closure', value = .function event closure
    ∧ other = .function event closure' ∧ closure'.name = closure.name

namespace Alike

variable {value value' other other' : Value}

lemma isTruthy_eq (alike : value.Alike other) : other.isTruthy = value.isTruthy := by
  rcases alike with rfl | ⟨event, closure, closure', rfl, rfl, _⟩
  · rfl
  · rfl

lemma shown_eq (alike : value.Alike other) : other.shown = value.shown := by
  rcases alike with rfl | ⟨event, closure, closure', rfl, rfl, name⟩
  · rfl
  · rw [Value.shown, Value.shown, name]

lemma prefixed_eq (alike : value.Alike other) (operator : Kind) :
    other.prefixed operator = value.prefixed operator := by
  rcases alike with rfl | ⟨event, closure, closure', rfl, rfl, _⟩
  · rfl
  · cases operator <;> rfl

lemma equals_eq (alike : value.Alike other) (alike' : value'.Alike other') :
    other.equals other' = value.equals value' := by
  rcases alike with rfl | ⟨event, closure, closure', rfl, rfl, _⟩
  · rcases alike' with rfl | ⟨event, closure, closure', rfl, rfl, _⟩
    · rfl
    · cases value <;> rfl
  · rcases alike' with rfl | ⟨event, closure, closure', rfl, rfl, _⟩
    · cases value' <;> rfl
    · rfl

lemma sum_eq (alike : value.Alike other) (alike' : value'.Alike other') :
    other.sum other' = value.sum value' := by
  rcases alike with rfl | ⟨event, closure, closure', rfl, rfl, _⟩
  · rcases alike' with rfl | ⟨event, closure, closure', rfl, rfl, _⟩
    · rfl
    · cases value <;> rfl
  · rfl

lemma combined_eq (alike : value.Alike other) (alike' : value'.Alike other') (operator : Kind) :
    other.combined operator other' = value.combined operator value' := by
  unfold Value.combined
  rw [alike.equals_eq alike', alike.sum_eq alike']
  split
  · rfl
  · rfl
  · rfl
  · split
    · rfl
    · -- an arithmetic operator takes nothing but numbers
      rcases alike with rfl | ⟨event, closure, closure', rfl, rfl, _⟩
      · rcases alike' with rfl | ⟨event, closure, closure', rfl, rfl, _⟩
        · rfl
        · cases value <;> rfl
      · rfl

end Alike

end Value

/-! ## What operators give -/

/-- What an operator gives: never a function, and never a fault for a name. -/
def OperatorResult (result : Except RuntimeError Value) : Prop :=
  match result with
  | .ok value => ∀ event closure, value ≠ .function event closure
  | .error error => ∀ name, error ≠ .undefined name

lemma operatorResult_prefixed (operator : Kind) (operand : Value) :
    OperatorResult (operand.prefixed operator) := by
  unfold Value.prefixed
  split
  · split
    · exact fun _ _ h => by cases h
    · exact fun _ h => by cases h
  · exact fun _ _ h => by cases h
  · exact fun _ h => by cases h

lemma arithmetic?_ne_function {operator : Kind} {f : Float → Float → Value}
    (found : Value.arithmetic? operator = some f) (a b : Float) (event : Nat) (closure : Closure) :
    f a b ≠ .function event closure := by
  unfold Value.arithmetic? at found
  split at found <;> cases found <;> exact fun eq => by cases eq

lemma operatorResult_combined (operator : Kind) (left right : Value) :
    OperatorResult (left.combined operator right) := by
  unfold Value.combined
  split
  · exact fun _ _ h => by cases h
  · exact fun _ _ h => by cases h
  · unfold Value.sum
    split
    · exact fun _ _ h => by cases h
    · exact fun _ _ h => by cases h
    · exact fun _ h => by cases h
  · split
    · exact fun _ h => by cases h
    · next maps =>
      split
      · exact fun event closure => arithmetic?_ne_function maps _ _ event closure
      · exact fun _ h => by cases h

end LoxLang
