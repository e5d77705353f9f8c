/-!
# Scopes

A scope binds names to values and may be enclosed by another scope.  Scopes are never removed, since
functions keep those they were made in, and they are numbered in the order they were made, so a scope
is enclosed by one with a smaller number.

* `Store` — all scopes.
* `Store.define` — binding a name in one scope.
* **`Store.holder?`** — the nearest scope of a chain that binds a name; `Store.get?` and
  `Store.assign?` read and write there.
* **`Store.ancestor?`** — the scope a given number of links out; `Store.getAt?` and `Store.assignAt?`
  read and write in exactly that one.
-/

namespace LoxLang

/-- One scope: its bindings and the number of the scope around it. -/
structure Scope (α : Type) where
  outer : Option Nat
  bindings : List (String × α)

namespace Scope

variable {α : Type}

/-- The value bound to a name. -/
def get? (scope : Scope α) (name : String) : Option α := scope.bindings.lookup name

/-- Bindings with a name bound to a value, in the place of an earlier binding if there is one. -/
def bind (name : String) (value : α) : List (String × α) → List (String × α)
  | [] => [(name, value)]
  | (other, old) :: rest =>
    if other = name then (name, value) :: rest else (other, old) :: bind name value rest

/-- Binds a name to a value. -/
def define (scope : Scope α) (name : String) (value : α) : Scope α :=
  { scope with bindings := bind name value scope.bindings }

end Scope

/-- All scopes, by number. -/
structure Store (α : Type) where
  scopes : Array (Scope α)
  /-- A scope is older than those it encloses. -/
  outer_lt : ∀ (i : Nat) (scope : Scope α), scopes[i]? = some scope →
    ∀ o, scope.outer = some o → o < i

namespace Store

variable {α : Type}

/-- A store without scopes. -/
def empty : Store α := ⟨#[], by simp⟩

/-- Adds a scope that `outer` encloses.  A scope that does not exist encloses nothing. -/
def child (store : Store α) (outer : Nat) : Nat × Store α :=
  (store.scopes.size,
    { scopes := store.scopes.push
        ⟨if outer < store.scopes.size then some outer else none, []⟩
      outer_lt := by
        intro i scope found o link
        rw [Array.getElem?_push] at found
        split at found
        · next last =>
          cases found
          split at link
          · cases link
            omega
          · cases link
        · exact store.outer_lt i scope found o link })

/-- Adds a scope that nothing encloses. -/
def root (store : Store α) : Nat × Store α :=
  (store.scopes.size,
    { scopes := store.scopes.push ⟨none, []⟩
      outer_lt := by
        intro i scope found o link
        rw [Array.getElem?_push] at found
        split at found
        · cases found
          cases link
        · exact store.outer_lt i scope found o link })

/-- Binds a name in one scope. -/
def define (store : Store α) (i : Nat) (name : String) (value : α) : Store α :=
  { scopes := store.scopes.modify i (·.define name value)
    outer_lt := by
      intro j scope found o link
      rw [Array.getElem?_modify] at found
      split at found
      · obtain ⟨old, held, rfl⟩ := Option.map_eq_some_iff.1 found
        exact store.outer_lt j old held o link
      · exact store.outer_lt j scope found o link }

/-! ## Along the chain -/

/-- The scope around a scope. -/
def outer? (store : Store α) (i : Nat) : Option Nat := (store.scopes[i]?).bind (·.outer)

theorem outer?_lt {store : Store α} {i o : Nat} (link : store.outer? i = some o) : o < i := by
  obtain ⟨scope, found, link⟩ := Option.bind_eq_some_iff.1 link
  exact store.outer_lt i scope found o link

/-- The value that a name has in one scope. -/
def local? (store : Store α) (i : Nat) (name : String) : Option α :=
  (store.scopes[i]?).bind (·.get? name)

/-- The nearest scope, from `i` outwards, that binds a name. -/
def holder? (store : Store α) (i : Nat) (name : String) : Option Nat :=
  if (store.local? i name).isSome then some i
  else
    match _link : store.outer? i with
    | some o => store.holder? o name
    | none => none
termination_by i
decreasing_by exact outer?_lt _link

/-- The value of a name, from the nearest scope that binds it. -/
def get? (store : Store α) (i : Nat) (name : String) : Option α :=
  (store.holder? i name).bind (store.local? · name)

/-- Gives a name a new value in the nearest scope that binds it. -/
def assign? (store : Store α) (i : Nat) (name : String) (value : α) : Option (Store α) :=
  (store.holder? i name).map (store.define · name value)

/-! ## In exactly one scope -/

/-- The scope that is `distance` links away. -/
def ancestor? (store : Store α) (i : Nat) : (distance : Nat) → Option Nat
  | 0 => if i < store.scopes.size then some i else none
  | distance + 1 => (store.outer? i).bind (store.ancestor? · distance)

/-- The value of a name in exactly the scope `distance` links away. -/
def getAt? (store : Store α) (i distance : Nat) (name : String) : Option α :=
  (store.ancestor? i distance).bind (store.local? · name)

/-- Binds a name in exactly the scope `distance` links away. -/
def assignAt? (store : Store α) (i distance : Nat) (name : String) (value : α) :
    Option (Store α) :=
  (store.ancestor? i distance).map (store.define · name value)

end Store

end LoxLang
