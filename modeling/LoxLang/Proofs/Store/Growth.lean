import LoxLang.Evaluation.Machine
import Mathlib

/-!
# What changes in a store, and what never does

Every operation that a running program applies to the scopes either binds a name in one of them or
adds one.  This file says what `define` and `child` do to the two views of a store that everything
else reads, `outer?` and `local?`, and draws the consequence that matters to closures.

* `outer?_define`, `local?_define`, `outer?_child`, `local?_child` — the two views after a change.
* `holder?_globals`, `get?_globals` — nothing encloses the globals.
* `Store.Grows` — links stay as they are and a name once bound stays bound.
* **`Grows.define`**, **`Grows.child`** — both operations grow a store.
-/

namespace LoxLang

namespace Scope

variable {α : Type}

lemma lookup_bind (name other : String) (value : α) :
    ∀ bindings : List (String × α),
      (bind name value bindings).lookup other
        = if other = name then some value else bindings.lookup other
  | [] => by
      by_cases h : other = name
      · simp [bind, h]
      · simp [bind, List.lookup, beq_false_of_ne h, h]
  | (key, old) :: rest => by
      have ih := lookup_bind name other value rest
      by_cases named : key = name
      · subst named
        by_cases h : other = key
        · simp [bind, h]
        · simp [bind, List.lookup, beq_false_of_ne h, h]
      · rw [bind, if_neg named]
        by_cases h : other = key
        · subst h
          simp [List.lookup, named]
        · simp only [List.lookup, beq_false_of_ne h, ih]

lemma get?_define (scope : Scope α) (name other : String) (value : α) :
    (scope.define name value).get? other
      = if other = name then some value else scope.get? other :=
  lookup_bind name other value scope.bindings

end Scope

namespace Store

variable {α : Type} {store store' store'' : Store α}

/-! ## Binding a name -/

@[simp] lemma size_define (store : Store α) (i : Nat) (name : String) (value : α) :
    (store.define i name value).scopes.size = store.scopes.size := by
  simp [define]

@[simp] lemma outer?_define (store : Store α) (i j : Nat) (name : String) (value : α) :
    (store.define i name value).outer? j = store.outer? j := by
  simp only [outer?, define, Array.getElem?_modify]
  split
  · cases store.scopes[j]? with
    | none => rfl
    | some scope => rfl
  · rfl

lemma local?_define (store : Store α) (i j : Nat) (name other : String) (value : α) :
    (store.define i name value).local? j other
      = if j = i ∧ other = name ∧ i < store.scopes.size then some value
        else store.local? j other := by
  simp only [local?, define, Array.getElem?_modify]
  by_cases same : i = j
  · subst same
    by_cases inside : i < store.scopes.size
    · simp only [inside, Array.getElem?_eq_getElem, if_true, Option.map_some, Option.bind_some,
        Scope.get?_define]
      by_cases h : other = name
      · simp [h]
      · simp [h]
    · simp [inside]
  · simp [same, Ne.symm same]

lemma local?_define_self {i : Nat} (inside : i < store.scopes.size) (name : String) (value : α) :
    (store.define i name value).local? i name = some value := by
  rw [local?_define, if_pos ⟨rfl, rfl, inside⟩]

/-! ## Adding a scope -/

@[simp] lemma fst_child (store : Store α) (outer : Nat) :
    (store.child outer).1 = store.scopes.size := rfl

@[simp] lemma size_child (store : Store α) (outer : Nat) :
    (store.child outer).2.scopes.size = store.scopes.size + 1 := by
  simp [child]

lemma outer?_child (store : Store α) (outer i : Nat) :
    (store.child outer).2.outer? i
      = if i = store.scopes.size then (if outer < store.scopes.size then some outer else none)
        else store.outer? i := by
  simp only [outer?, child, Array.getElem?_push]
  by_cases inside : i = store.scopes.size
  · simp [inside]
  · simp [inside]

lemma local?_child (store : Store α) (outer i : Nat) (name : String) :
    (store.child outer).2.local? i name = store.local? i name := by
  simp only [local?, child, Array.getElem?_push]
  by_cases inside : i = store.scopes.size
  · simp [inside, Scope.get?]
  · simp [inside]

lemma local?_root_empty (i : Nat) (name : String) :
    (empty.root.2 : Store α).local? i name = none := by
  simp only [local?, root, empty, Array.getElem?_push]
  split
  · rfl
  · rfl

/-! ## What the views say about the number of scopes -/

lemma lt_size_of_outer? {i o : Nat} (link : store.outer? i = some o) : i < store.scopes.size := by
  obtain ⟨scope, found, _⟩ := Option.bind_eq_some_iff.1 link
  exact (Array.getElem?_eq_some_iff.1 found).1

lemma local?_eq_none {i : Nat} (inside : store.scopes.size ≤ i) (name : String) :
    store.local? i name = none := by
  rw [local?, Array.getElem?_eq_none inside, Option.bind_none]

/-! ## The globals -/

lemma holder?_globals (store : Store α) (name : String) :
    store.holder? Machine.globals name
      = (store.local? Machine.globals name).map fun _ => Machine.globals := by
  have outermost : store.outer? Machine.globals = none := by
    cases h : store.outer? Machine.globals with
    | none => rfl
    | some outer => exact absurd (outer?_lt h) (Nat.not_lt_zero _)
  unfold holder?
  cases held : store.local? Machine.globals name with
  | some value => rfl
  | none =>
      simp only [Option.isSome_none, Bool.false_eq_true, if_false, Option.map_none]
      split
      · next outer link => rw [outermost] at link; cases link
      · rfl

lemma get?_globals (store : Store α) (name : String) :
    store.get? Machine.globals name = store.local? Machine.globals name := by
  rw [get?, holder?_globals]
  cases h : store.local? Machine.globals name with
  | none => rfl
  | some value => exact h

/-! ## Growth -/

/-- One store is an earlier state of another: links are the same, and what was bound still is. -/
structure Grows (store store' : Store α) : Prop where
  size : store.scopes.size ≤ store'.scopes.size
  outer : ∀ {i o : Nat}, store.outer? i = some o → store'.outer? i = some o
  bound : ∀ {i : Nat} {name : String}, (store.local? i name).isSome → (store'.local? i name).isSome

lemma Grows.refl (store : Store α) : store.Grows store := ⟨le_refl _, id, id⟩

lemma Grows.trans (first : store.Grows store') (second : store'.Grows store'') :
    store.Grows store'' :=
  ⟨le_trans first.size second.size, fun h => second.outer (first.outer h),
    fun h => second.bound (first.bound h)⟩

/-- Binding a name takes nothing away. -/
lemma Grows.define (store : Store α) (i : Nat) (name : String) (value : α) :
    store.Grows (store.define i name value) where
  size := by rw [size_define]
  outer := by
    intro j o link
    rw [outer?_define]
    exact link
  bound := by
    intro j other held
    rw [local?_define]
    split_ifs
    · rfl
    · exact held

/-- A new scope takes nothing away. -/
lemma Grows.child (store : Store α) (outer : Nat) : store.Grows (store.child outer).2 where
  size := by rw [size_child]; omega
  outer := by
    intro i o link
    have inside := lt_size_of_outer? link
    rw [outer?_child, if_neg (by omega)]
    exact link
  bound := by
    intro i name held
    rw [local?_child]
    exact held

/-- Every value that a name has after a binding was there before, or is the new one. -/
lemma local?_define_cases {i j : Nat} {name other : String} {value found : α}
    (held : (store.define i name value).local? j other = some found) :
    found = value ∨ store.local? j other = some found := by
  rw [local?_define] at held
  split_ifs at held
  · exact Or.inl (Option.some.inj held).symm
  · exact Or.inr held

/-- The value of a name along a chain is its value in one of the scopes. -/
lemma exists_local?_of_get? {i : Nat} {name : String} {value : α}
    (found : store.get? i name = some value) : ∃ j, store.local? j name = some value := by
  obtain ⟨j, _, held⟩ := Option.bind_eq_some_iff.1 found
  exact ⟨j, held⟩

end Store

end LoxLang
