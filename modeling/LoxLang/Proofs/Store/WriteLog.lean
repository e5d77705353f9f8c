import LoxLang.Proofs.Store.Growth

/-!
# Scopes and the log of what was written to them

A store keeps one value for each name in each scope, and finds scopes by following links.  The log
forgets nothing and follows no links: it keeps every write that was ever made, and for each scope the
whole chain of scopes around it.  What operations on scopes yield, and what they change, is read off
the log.

* `Store.Operation`, `Store.perform` — what can be done with scopes, and what a store makes of it.
* `WriteLog` — all writes in their order and all chains; `WriteLog.last?`, `WriteLog.nearest?`, the
  last value of a name in a scope and the nearest scope in which a name was ever written.
* `WriteLog.perform` — what an operation yields by the log.
* `Store.Logged` — a store that agrees with a log; `Logged.holder?_eq`, `Logged.ancestor?_eq`, its
  links lead where the chains say.
* `Logged.perform` — an operation keeps store and log in agreement; `Logged.perform_cases`, what it can
  do to the store.
* **`Store.performAll_logged`** — after any operations store and log yield the same, and one more
  operation changes no other binding than the one it writes.
-/

namespace LoxLang

variable {α σ τ : Type}

namespace Store

/-! ## Operations -/

/-- What can be done with scopes, which are given by their numbers. -/
inductive Operation (α : Type) where
  | root
  | child (outer : Nat)
  | define (scope : Nat) (name : String) (value : α)
  | assign (scope : Nat) (name : String) (value : α)
  | assignAt (scope distance : Nat) (name : String) (value : α)
  | get (scope : Nat) (name : String)
  | getAt (scope distance : Nat) (name : String)
  deriving DecidableEq, Repr

/-- What an operation yields. -/
inductive Result (α : Type) where
  | made (scope : Nat)
  | written
  | found (value : α)
  | undefined
  deriving DecidableEq, Repr

/-- A value that was looked up. -/
def Result.ofOption : Option α → Result α
  | some value => .found value
  | none => .undefined

/-- What an operation yields, and the store behind it. -/
def perform (store : Store α) : Operation α → Result α × Store α
  | .root => (.made store.root.1, store.root.2)
  | .child outer => (.made (store.child outer).1, (store.child outer).2)
  | .define scope name value => (.written, store.define scope name value)
  | .assign scope name value =>
    match store.assign? scope name value with
    | some after => (.written, after)
    | none => (.undefined, store)
  | .assignAt scope distance name value =>
    match store.assignAt? scope distance name value with
    | some after => (.written, after)
    | none => (.undefined, store)
  | .get scope name => (.ofOption (store.get? scope name), store)
  | .getAt scope distance name => (.ofOption (store.getAt? scope distance name), store)

/-- What operations yield one after another, and the state behind them. -/
def Operation.all (perform : σ → Operation α → Result α × σ) (state : σ) :
    List (Operation α) → List (Result α) × σ
  | [] => ([], state)
  | operation :: others =>
    let rest := all perform (perform state operation).2 others
    ((perform state operation).1 :: rest.1, rest.2)

/-- What operations on a store yield one after another, and the store behind them. -/
def performAll (store : Store α) (operations : List (Operation α)) : List (Result α) × Store α :=
  Operation.all perform store operations

/-- **States that go in step yield the same.**  If each operation yields the same in two related states
and relates the states behind it, so do all operations together. -/
lemma Operation.all_related {first : σ → Operation α → Result α × σ}
    {second : τ → Operation α → Result α × τ} {related : σ → τ → Prop}
    (step : ∀ state other operation, related state other →
      (first state operation).1 = (second other operation).1 ∧
        related (first state operation).2 (second other operation).2)
    (operations : List (Operation α)) {state : σ} {other : τ} (start : related state other) :
    (all first state operations).1 = (all second other operations).1 ∧
      related (all first state operations).2 (all second other operations).2 := by
  induction operations generalizing state other with
  | nil => exact ⟨rfl, start⟩
  | cons operation others ih =>
      obtain ⟨same, next⟩ := step state other operation start
      obtain ⟨rest, last⟩ := ih next
      exact ⟨by simp only [all, same, rest], last⟩

end Store

/-! ## The log -/

/-- A value that was written to a name in a scope. -/
structure Write (α : Type) where
  scope : Nat
  name : String
  value : α

/-- All that was ever done with scopes. -/
structure WriteLog (α : Type) where
  /-- For each scope that was made the scope itself, the one that it was made in, and so on. -/
  chains : List (List Nat)
  /-- All writes, the latest one at the end. -/
  writes : List (Write α)

namespace WriteLog

/-- Nothing has been done. -/
def empty : WriteLog α := ⟨[], []⟩

/-- A scope and those around it, from the inside out.  A scope that was not made has no chain. -/
def chain (log : WriteLog α) (scope : Nat) : List Nat := log.chains.getD scope []

/-- All values that were ever written to a name in a scope, in their order. -/
def values (log : WriteLog α) (scope : Nat) (name : String) : List α :=
  (log.writes.filter fun write => write.scope = scope ∧ write.name = name).map Write.value

/-- The last value that was written to a name in a scope. -/
def last? (log : WriteLog α) (scope : Nat) (name : String) : Option α :=
  (log.values scope name).getLast?

/-- The nearest scope of a chain in which a name was ever written. -/
def nearest? (log : WriteLog α) (scope : Nat) (name : String) : Option Nat :=
  (log.chain scope).find? fun around => !(log.values around name).isEmpty

/-- One more scope, with the chain of the scope that it is made in. -/
def enclosed (log : WriteLog α) (around : List Nat) : WriteLog α :=
  { log with chains := log.chains ++ [log.chains.length :: around] }

/-- One more write, if the scope was made. -/
def written (log : WriteLog α) (scope : Nat) (name : String) (value : α) : WriteLog α :=
  if scope < log.chains.length then { log with writes := log.writes ++ [⟨scope, name, value⟩] }
  else log

/-- A write to the scope that was looked for; a failure if there is none. -/
def writtenTo (log : WriteLog α) (target : Option Nat) (name : String) (value : α) :
    Store.Result α × WriteLog α :=
  match target with
  | some scope => (.written, log.written scope name value)
  | none => (.undefined, log)

/-- **What an operation yields by the log**, and the log behind it. -/
def perform (log : WriteLog α) : Store.Operation α → Store.Result α × WriteLog α
  | .root => (.made log.chains.length, log.enclosed [])
  | .child outer => (.made log.chains.length, log.enclosed (log.chain outer))
  | .define scope name value => (.written, log.written scope name value)
  | .assign scope name value => log.writtenTo (log.nearest? scope name) name value
  | .assignAt scope distance name value => log.writtenTo (log.chain scope)[distance]? name value
  | .get scope name => (.ofOption ((log.nearest? scope name).bind (log.last? · name)), log)
  | .getAt scope distance name =>
    (.ofOption ((log.chain scope)[distance]?.bind (log.last? · name)), log)

/-- What operations yield one after another by the log, and the log behind them. -/
def performAll (log : WriteLog α) (operations : List (Store.Operation α)) :
    List (Store.Result α) × WriteLog α :=
  Store.Operation.all perform log operations

/-- The scope and the name that an operation writes to, if it writes at all. -/
def target? (log : WriteLog α) : Store.Operation α → Option (Nat × String)
  | .define scope name _ => some (scope, name)
  | .assign scope name _ => (log.nearest? scope name).map (·, name)
  | .assignAt scope distance name _ => (log.chain scope)[distance]?.map (·, name)
  | _ => none

/-! ### Its views after a change -/

variable (log : WriteLog α) (scope i : Nat) (name other : String) (value : α)

lemma chain_eq_nil {log : WriteLog α} {scope : Nat} (unmade : log.chains.length ≤ scope) :
    log.chain scope = [] :=
  List.getD_eq_default _ _ unmade

lemma chain_enclosed (around : List Nat) :
    (log.enclosed around).chain i =
      if i = log.chains.length then log.chains.length :: around else log.chain i := by
  simp only [chain, enclosed, List.getD_eq_getElem?_getD]
  rcases Nat.lt_trichotomy i log.chains.length with older | rfl | unmade
  · rw [List.getElem?_append_left older, if_neg older.ne]
  · simp
  · rw [List.getElem?_eq_none (by simpa using unmade), List.getElem?_eq_none unmade.le,
      if_neg unmade.ne']

@[simp] lemma chain_written : (log.written scope name value).chain i = log.chain i := by
  unfold written
  split <;> rfl

lemma last?_written :
    (log.written scope name value).last? i other =
      if i = scope ∧ other = name ∧ scope < log.chains.length then some value
      else log.last? i other := by
  unfold written
  by_cases made : scope < log.chains.length
  · by_cases same : i = scope ∧ other = name
    · obtain ⟨rfl, rfl⟩ := same
      simp [last?, values, made]
    · have elsewhere : ¬(scope = i ∧ name = other) := fun ⟨here, named⟩ => same ⟨here.symm, named.symm⟩
      rw [if_pos made, if_neg fun all => same ⟨all.1, all.2.1⟩]
      simp [last?, values, elsewhere]
  · simp [made]

/-- A name was written in a scope exactly if it has a last value there. -/
lemma isEmpty_values : (!(log.values scope name).isEmpty) = (log.last? scope name).isSome := by
  unfold last?
  cases log.values scope name <;> simp

end WriteLog

/-! ## Stores that agree with a log -/

namespace Store

/-- What is seen of a store is what the log says. -/
structure Logged (store : Store α) (log : WriteLog α) : Prop where
  size : log.chains.length = store.scopes.size
  /-- The chain of a scope is the scope and the chain of the one around it. -/
  chain : ∀ scope < store.scopes.size,
    log.chain scope = scope :: ((store.outer? scope).map log.chain).getD []
  last : ∀ scope name, store.local? scope name = log.last? scope name

lemma outer?_eq_none {store : Store α} {scope : Nat} (unmade : store.scopes.size ≤ scope) :
    store.outer? scope = none := by
  rw [outer?, Array.getElem?_eq_none unmade, Option.bind_none]

/-- A scope that nothing encloses is made in none of those there are. -/
lemma root_eq_child (store : Store α) : store.root = store.child store.scopes.size := by
  simp [root, child]

namespace Logged

variable {store : Store α} {log : WriteLog α}

lemma empty : (Store.empty : Store α).Logged .empty where
  size := rfl
  chain := fun scope made => absurd made (Nat.not_lt_zero scope)
  last := fun scope name => local?_eq_none (Nat.zero_le scope) name

/-- **The nearest scope that binds a name** is the nearest one in which it was ever written. -/
lemma holder?_eq (agree : store.Logged log) (scope : Nat) (name : String) :
    store.holder? scope name = log.nearest? scope name := by
  induction scope using Nat.strong_induction_on with
  | _ scope ih =>
      rw [holder?, WriteLog.nearest?]
      by_cases made : scope < store.scopes.size
      · rw [agree.chain scope made, List.find?_cons, log.isEmpty_values, agree.last]
        cases log.last? scope name with
        | some value => rfl
        | none =>
            simp only [Option.isSome_none, Bool.false_eq_true, if_false]
            split
            · next outer link =>
              rw [link]
              exact ih outer (outer?_lt link)
            · next link =>
              rw [link]
              rfl
      · have unmade := Nat.le_of_not_lt made
        rw [local?_eq_none unmade, WriteLog.chain_eq_nil (agree.size ▸ unmade)]
        simp only [Option.isSome_none, Bool.false_eq_true, if_false, List.find?_nil]
        split
        · next outer link => rw [outer?_eq_none unmade] at link; cases link
        · rfl

/-- **The scope a number of links out** is the one with that place in the chain. -/
lemma ancestor?_eq (agree : store.Logged log) (scope distance : Nat) :
    store.ancestor? scope distance = (log.chain scope)[distance]? := by
  induction distance generalizing scope with
  | zero =>
      rw [ancestor?]
      by_cases made : scope < store.scopes.size
      · rw [if_pos made, agree.chain scope made, List.getElem?_cons_zero]
      · rw [if_neg made, WriteLog.chain_eq_nil (agree.size ▸ Nat.le_of_not_lt made)]
        rfl
  | succ distance ih =>
      rw [ancestor?]
      by_cases made : scope < store.scopes.size
      · rw [agree.chain scope made, List.getElem?_cons_succ]
        cases store.outer? scope with
        | none => rfl
        | some outer => exact ih outer
      · rw [outer?_eq_none (Nat.le_of_not_lt made),
          WriteLog.chain_eq_nil (agree.size ▸ Nat.le_of_not_lt made)]
        rfl

lemma get?_eq (agree : store.Logged log) (scope : Nat) (name : String) :
    store.get? scope name = (log.nearest? scope name).bind (log.last? · name) := by
  rw [get?, agree.holder?_eq]
  exact congrArg _ (funext fun holder => agree.last holder name)

lemma getAt?_eq (agree : store.Logged log) (scope distance : Nat) (name : String) :
    store.getAt? scope distance name =
      (log.chain scope)[distance]?.bind (log.last? · name) := by
  rw [getAt?, agree.ancestor?_eq]
  exact congrArg _ (funext fun holder => agree.last holder name)

/-! ### Steps -/

/-- A write keeps store and log in agreement. -/
lemma define (agree : store.Logged log) (scope : Nat) (name : String) (value : α) :
    (store.define scope name value).Logged (log.written scope name value) where
  size := by
    rw [size_define, ← agree.size]
    unfold WriteLog.written
    split <;> rfl
  chain := by
    intro i made
    rw [size_define] at made
    have same : (log.written scope name value).chain = log.chain :=
      funext fun i => log.chain_written scope i name value
    rw [outer?_define, same]
    exact agree.chain i made
  last := by
    intro i other
    rw [local?_define, WriteLog.last?_written, agree.size, agree.last]

/-- So does a new scope. -/
lemma child (agree : store.Logged log) (outer : Nat) :
    (store.child outer).2.Logged (log.enclosed (log.chain outer)) where
  size := by simp [WriteLog.enclosed, agree.size]
  chain := by
    intro i made
    -- the new scope is in no chain but its own
    have older : ∀ {o}, o < store.scopes.size →
        (log.enclosed (log.chain outer)).chain o = log.chain o := fun {o} earlier => by
      rw [log.chain_enclosed, if_neg (agree.size ▸ earlier.ne)]
    rw [size_child] at made
    rw [outer?_child]
    by_cases last : i = store.scopes.size
    · rw [if_pos last, log.chain_enclosed, if_pos (last.trans agree.size.symm), last, agree.size]
      by_cases known : outer < store.scopes.size
      · rw [if_pos known, Option.map_some, Option.getD_some, older known]
      · rw [if_neg known, WriteLog.chain_eq_nil (agree.size ▸ Nat.le_of_not_lt known)]
        rfl
    · have earlier : i < store.scopes.size := by omega
      rw [if_neg last, older earlier, agree.chain i earlier]
      cases link : store.outer? i with
      | none => rfl
      | some o =>
          rw [Option.map_some, Option.map_some, older (Nat.lt_trans (outer?_lt link) earlier)]
  last := by
    intro i name
    rw [local?_child]
    exact agree.last i name

/-- So does a write to the scope that was looked for, which fails on both sides or on none. -/
lemma writtenTo (agree : store.Logged log) (target : Option Nat) (name : String) (value : α) :
    let performed := match target.map (store.define · name value) with
      | some after => ((.written : Result α), after)
      | none => (.undefined, store)
    performed.1 = (log.writtenTo target name value).1 ∧
      performed.2.Logged (log.writtenTo target name value).2 := by
  cases target with
  | none => exact ⟨rfl, agree⟩
  | some scope => exact ⟨rfl, agree.define scope name value⟩

/-- **An operation yields what the log says, and keeps store and log in agreement.** -/
theorem perform (agree : store.Logged log) (operation : Operation α) :
    (store.perform operation).1 = (log.perform operation).1 ∧
      (store.perform operation).2.Logged (log.perform operation).2 := by
  cases operation with
  | root =>
      have outside := agree.child store.scopes.size
      rw [WriteLog.chain_eq_nil agree.size.le] at outside
      rw [Store.perform, root_eq_child]
      exact ⟨congrArg Result.made agree.size.symm, outside⟩
  | child outer => exact ⟨congrArg Result.made agree.size.symm, agree.child outer⟩
  | define scope name value => exact ⟨rfl, agree.define scope name value⟩
  | assign scope name value =>
      rw [Store.perform, assign?, agree.holder?_eq]
      exact agree.writtenTo (log.nearest? scope name) name value
  | assignAt scope distance name value =>
      rw [Store.perform, assignAt?, agree.ancestor?_eq]
      exact agree.writtenTo (log.chain scope)[distance]? name value
  | get scope name => exact ⟨congrArg Result.ofOption (agree.get?_eq scope name), agree⟩
  | getAt scope distance name =>
      exact ⟨congrArg Result.ofOption (agree.getAt?_eq scope distance name), agree⟩

/-- **What an operation can do to a store:** nothing, make a scope, or write one binding. -/
theorem perform_cases (agree : store.Logged log) (operation : Operation α) :
    (store.perform operation).2 = store ∨
      (∃ outer, store.perform operation = (.made store.scopes.size, (store.child outer).2)) ∨
      ∃ scope name value, log.target? operation = some (scope, name) ∧
        store.perform operation = (.written, store.define scope name value) := by
  cases operation with
  | root => exact .inr (.inl ⟨store.scopes.size, by rw [Store.perform, root_eq_child]; rfl⟩)
  | child outer => exact .inr (.inl ⟨outer, rfl⟩)
  | define scope name value => exact .inr (.inr ⟨scope, name, value, rfl, rfl⟩)
  | assign scope name value =>
      rw [Store.perform, assign?, WriteLog.target?, agree.holder?_eq]
      cases log.nearest? scope name with
      | none => exact .inl rfl
      | some holder => exact .inr (.inr ⟨holder, name, value, rfl, rfl⟩)
  | assignAt scope distance name value =>
      rw [Store.perform, assignAt?, WriteLog.target?, agree.ancestor?_eq]
      cases (log.chain scope)[distance]? with
      | none => exact .inl rfl
      | some holder => exact .inr (.inr ⟨holder, name, value, rfl, rfl⟩)
  | get scope name => exact .inl rfl
  | getAt scope distance name => exact .inl rfl

variable {operation : Operation α}

/-- An operation that fails changes nothing. -/
lemma perform_undefined (agree : store.Logged log)
    (fails : (store.perform operation).1 = .undefined) : (store.perform operation).2 = store := by
  rcases agree.perform_cases operation with same | ⟨outer, made⟩ | ⟨scope, name, value, -, wrote⟩
  · exact same
  · rw [made] at fails
    cases fails
  · rw [wrote] at fails
    cases fails

/-- An operation changes no other binding than the one that it writes. -/
lemma local?_perform (agree : store.Logged log) {i : Nat} {name : String}
    (elsewhere : log.target? operation ≠ some (i, name)) :
    (store.perform operation).2.local? i name = store.local? i name := by
  rcases agree.perform_cases operation with same | ⟨outer, made⟩ | ⟨scope, other, value, target, wrote⟩
  · rw [same]
  · rw [made, local?_child]
  · rw [wrote, local?_define, if_neg]
    rintro ⟨rfl, rfl, -⟩
    exact elsewhere target

/-- An operation takes nothing away. -/
lemma grows_perform (agree : store.Logged log) (operation : Operation α) :
    store.Grows (store.perform operation).2 := by
  rcases agree.perform_cases operation with same | ⟨outer, made⟩ | ⟨scope, name, value, -, wrote⟩
  · rw [same]
    exact .refl store
  · rw [made]
    exact .child store outer
  · rw [wrote]
    exact .define store scope name value

/-- Neither do operations one after another. -/
lemma grows_performAll (agree : store.Logged log) (operations : List (Operation α)) :
    store.Grows (store.performAll operations).2 := by
  induction operations generalizing store log with
  | nil => exact .refl store
  | cons operation others ih =>
      exact (agree.grows_perform operation).trans (ih (agree.perform operation).2)

end Logged

/-- **Scopes are what the log of their writes says.**  Whatever operations are done one after another,
they yield what the log yields: a name has the last value that was written to it in the nearest scope
of the chain in which it was ever written, an assignment goes to that same scope, and an operation at a
distance goes to exactly the scope at that place of the chain.  Behind them each scope binds each name
to the last value that was written to it there.  One more operation changes nothing if it fails, and
otherwise no binding but the one that it writes, and no operations take a binding away. -/
theorem performAll_logged (operations : List (Operation α)) :
    let store := ((empty : Store α).performAll operations).2
    let log := (WriteLog.empty.performAll operations).2
    ((empty : Store α).performAll operations).1 = (WriteLog.empty.performAll operations).1 ∧
      (∀ scope name, store.local? scope name = log.last? scope name) ∧
      (∀ operation, (store.perform operation).1 = (log.perform operation).1 ∧
        ((store.perform operation).1 = .undefined → (store.perform operation).2 = store) ∧
        ∀ scope name, log.target? operation ≠ some (scope, name) →
          (store.perform operation).2.local? scope name = store.local? scope name) ∧
      ∀ later scope name, (store.local? scope name).isSome →
        ((store.performAll later).2.local? scope name).isSome := by
  obtain ⟨yielded, agree⟩ := Operation.all_related
    (fun _ _ operation agree => Logged.perform agree operation) operations (Logged.empty (α := α))
  refine ⟨yielded, agree.last, fun operation => ⟨(agree.perform operation).1, ?_, ?_⟩, ?_⟩
  · exact agree.perform_undefined
  · intro scope name elsewhere
    exact agree.local?_perform elsewhere
  · intro later scope name bound
    exact (agree.grows_performAll later).bound bound

/-- Two scopes inside one: what is written through the first is seen through the second until that one
has the name itself.  A distance leads past the own name, and fails behind the outermost scope. -/
theorem performAll_logged_siblings :
    let operations : List (Operation Nat) := [.root, .child 0, .child 0, .define 0 "x" 1,
      .assign 1 "x" 2, .get 2 "x", .define 2 "x" 3, .assignAt 1 1 "x" 4, .get 2 "x", .getAt 2 1 "x",
      .getAt 1 0 "x", .assignAt 1 2 "x" 5, .get 1 "y"]
    let store := ((empty : Store Nat).performAll operations).2
    ((empty : Store Nat).performAll operations).1 = [.made 0, .made 1, .made 2, .written,
        .written, .found 2, .written, .written, .found 3, .found 4,
        .undefined, .undefined, .undefined] ∧
      (store.perform (.assign 1 "x" 6)).2.local? 2 "x" = store.local? 2 "x" := by
  intro operations store
  obtain ⟨yielded, -, next, -⟩ := performAll_logged operations
  refine ⟨yielded.trans (by rfl), (next (.assign 1 "x" 6)).2.2 2 "x" (by decide)⟩

end Store

end LoxLang
