import Mathlib
import LoxLang.Store

/-!
# The same scopes with other values

`Store.map` puts another value in the place of each bound one.  The scopes, their links and the names
in them stay, so every way to find a binding finds the same one, and every way to make one makes the
same.

* `Store.map` — all values changed by a function.
* `size_map`, `outer?_map`, `local?_map` — what is seen of a changed store.
* **`holder?_map`**, **`ancestor?_map`** — names are found in the same scopes.
* **`map_define`**, **`map_child`** — changing values before or after an operation is the same.
-/

namespace LoxLang

namespace Scope

variable {α β : Type}

/-- A scope with its values changed. -/
def map (f : α → β) (scope : Scope α) : Scope β :=
  ⟨scope.outer, scope.bindings.map fun binding => (binding.1, f binding.2)⟩

lemma get?_map (f : α → β) (scope : Scope α) (name : String) :
    (scope.map f).get? name = (scope.get? name).map f := by
  simp only [get?, map]
  induction scope.bindings with
  | nil => rfl
  | cons binding rest ih =>
      obtain ⟨other, value⟩ := binding
      by_cases same : name = other
      · simp [List.lookup, same]
      · simp only [List.map_cons, List.lookup, beq_false_of_ne same]
        exact ih

lemma map_bind (f : α → β) (name : String) (value : α) : ∀ bindings : List (String × α),
    (bind name value bindings).map (fun binding => (binding.1, f binding.2)) =
      bind name (f value) (bindings.map fun binding => (binding.1, f binding.2))
  | [] => rfl
  | (other, old) :: rest => by
      by_cases same : other = name
      · simp [bind, same]
      · simp [bind, same, map_bind f name value rest]

lemma map_define (f : α → β) (scope : Scope α) (name : String) (value : α) :
    (scope.define name value).map f = (scope.map f).define name (f value) := by
  simp only [define, map, map_bind]

/-- A scope that one change leaves alone is left alone by another one that changes less. -/
lemma map_eq_self_imp {f g : α → α} (follows : ∀ value, f value = value → g value = value)
    {scope : Scope α} (same : scope.map f = scope) : scope.map g = scope := by
  obtain ⟨outer, bindings⟩ := scope
  have each : ∀ binding ∈ bindings, (binding.1, f binding.2) = binding :=
    List.map_inj_left.mp ((Scope.mk.inj same).2.trans (List.map_id _).symm)
  refine congrArg (Scope.mk outer) ((List.map_congr_left fun binding mem => ?_).trans (List.map_id _))
  exact Prod.ext rfl (follows _ (congrArg Prod.snd (each binding mem)))

end Scope

namespace Store

variable {α β γ : Type}

/-- Stores with the same scopes are the same. -/
lemma ext_scopes {store other : Store α} (same : store.scopes = other.scopes) : store = other := by
  cases store
  cases other
  simpa using same

/-- A store with its values changed. -/
def map (f : α → β) (store : Store α) : Store β where
  scopes := store.scopes.map (Scope.map f)
  outer_lt := by
    intro i scope found o link
    rw [Array.getElem?_map] at found
    obtain ⟨old, held, rfl⟩ := Option.map_eq_some_iff.1 found
    exact store.outer_lt i old held o link

lemma map_id (store : Store α) : store.map id = store := by
  refine ext_scopes ?_
  have same : Scope.map (id : α → α) = id := by
    funext scope
    simp [Scope.map]
  simp [map, same]

lemma map_map (f : α → β) (g : β → γ) (store : Store α) :
    (store.map f).map g = store.map (g ∘ f) := by
  refine ext_scopes ?_
  simp only [map, Array.map_map]
  congr 1
  funext scope
  simp [Scope.map, Function.comp_def]

/-- A store that one change leaves alone is left alone by another one that changes less. -/
lemma map_eq_self_imp {f g : α → α} (follows : ∀ value, f value = value → g value = value)
    {store : Store α} (same : store.map f = store) : store.map g = store := by
  have each (i : Nat) : (store.scopes.map (Scope.map f))[i]? = store.scopes[i]? :=
    congrArg (fun other : Store α => other.scopes[i]?) same
  refine ext_scopes (Array.ext_getElem? fun i => ?_)
  have one := each i
  rw [Array.getElem?_map] at one
  show (store.scopes.map (Scope.map g))[i]? = _
  rw [Array.getElem?_map]
  cases held : store.scopes[i]? with
  | none => rfl
  | some scope =>
      rw [held] at one
      exact congrArg some (Scope.map_eq_self_imp follows (Option.some.inj one))

/-! ## What is seen of it -/

@[simp] lemma size_map (f : α → β) (store : Store α) :
    (store.map f).scopes.size = store.scopes.size := by
  simp [map]

@[simp] lemma outer?_map (f : α → β) (store : Store α) (i : Nat) :
    (store.map f).outer? i = store.outer? i := by
  simp only [outer?, map, Array.getElem?_map]
  cases store.scopes[i]? with
  | none => rfl
  | some scope => rfl

lemma local?_map (f : α → β) (store : Store α) (i : Nat) (name : String) :
    (store.map f).local? i name = (store.local? i name).map f := by
  simp only [local?, map, Array.getElem?_map]
  cases store.scopes[i]? with
  | none => rfl
  | some scope => exact scope.get?_map f name

/-- **The nearest scope that binds a name is the same.** -/
lemma holder?_map (f : α → β) (store : Store α) (name : String) :
    ∀ i, (store.map f).holder? i name = store.holder? i name := by
  intro i
  induction i using Nat.strong_induction_on with
  | _ i ih =>
    have bound : ((store.map f).local? i name).isSome = (store.local? i name).isSome := by
      rw [local?_map, Option.isSome_map]
    rw [holder?, holder?, bound]
    split
    · rfl
    · -- both searches go on in the same outer scope
      split
      · next o link =>
        rw [outer?_map] at link
        split
        · next o' link' =>
          obtain rfl := Option.some.inj (link.symm.trans link')
          exact ih o (outer?_lt link)
        · next link' => rw [link'] at link; cases link
      · next link =>
        rw [outer?_map] at link
        split
        · next o' link' => rw [link'] at link; cases link
        · rfl

lemma get?_map (f : α → β) (store : Store α) (i : Nat) (name : String) :
    (store.map f).get? i name = (store.get? i name).map f := by
  simp only [get?, holder?_map]
  cases store.holder? i name with
  | none => rfl
  | some scope => exact local?_map f store scope name

/-- **The scope a number of links out is the same.** -/
lemma ancestor?_map (f : α → β) (store : Store α) :
    ∀ (distance i : Nat), (store.map f).ancestor? i distance = store.ancestor? i distance
  | 0, i => by simp [ancestor?]
  | distance + 1, i => by
      rw [ancestor?, ancestor?, outer?_map]
      cases store.outer? i with
      | none => rfl
      | some o => exact ancestor?_map f store distance o

lemma getAt?_map (f : α → β) (store : Store α) (i distance : Nat) (name : String) :
    (store.map f).getAt? i distance name = (store.getAt? i distance name).map f := by
  simp only [getAt?, ancestor?_map]
  cases store.ancestor? i distance with
  | none => rfl
  | some scope => exact local?_map f store scope name

/-! ## What is done to it -/

/-- **Binding a name commutes with changing values.** -/
lemma map_define (f : α → β) (store : Store α) (i : Nat) (name : String) (value : α) :
    (store.define i name value).map f = (store.map f).define i name (f value) := by
  refine ext_scopes ?_
  refine Array.ext_getElem? fun j => ?_
  simp only [map, define, Array.getElem?_map, Array.getElem?_modify]
  split
  · simp only [Option.map_map]
    congr 1
    funext scope
    exact scope.map_define f name value
  · rfl

/-- **Adding a scope commutes with changing values.** -/
lemma map_child (f : α → β) (store : Store α) (outer : Nat) :
    (store.map f).child outer = ((store.child outer).1, (store.child outer).2.map f) := by
  refine Prod.ext (size_map f store) (ext_scopes ?_)
  simp [child, map, Scope.map]

/-- A first scope has no values to change. -/
lemma map_root_empty (f : α → β) : (empty.root.2 : Store α).map f = empty.root.2 := by
  refine ext_scopes ?_
  simp [root, empty, map, Scope.map]

end Store

end LoxLang
