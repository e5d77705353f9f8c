import LoxLang.Proofs.Binding.Renaming
import LoxLang.Proofs.Evaluation.Lexical
import LoxLang.Proofs.Evaluation.SideBySide

/-!
# Two runs side by side

A program and the same program with one variable renamed are run next to each other.  Their machines
have the same scopes, and a scope of the block or function that has the variable binds the new name
where the other one binds the old name.

* `Value.Resembles` — the same value; a function of the one program belongs to the same declaration as
  that of the other and has the renamed body.
* `Store.Resembles`, `Machine.Resembles` — the same scopes with the variable renamed.
* `Watched.Resembles` — the run that is watched and the other one end alike, provided that the visits
  of the first find their scopes; `Resembles.bind` composes runs.

One lemma follows for each step that touches the machine.
-/

namespace LoxLang

/-- Every instance is a scope with the place of its block or function. -/
def Labelled (sites : List (Option Place)) (display : List Instance) : Prop :=
  ∀ found ∈ display, sites[found.scope]? = some (some found.site)

lemma Labelled.grow {sites sites' : List (Option Place)} {display : List Instance}
    (grown : sites <+: sites') (labelled : Labelled sites display) : Labelled sites' display := by
  intro found held
  exact getElem?_left grown (labelled found held)

/-- A value and the one in its place after renaming. -/
def Value.Resembles (texts : Nat → List Stmt) (r : Renaming) (origins : List Position)
    (sites : List (Option Place)) : Value → Value → Prop
  | .function event closure, other =>
    ∃ (declared : Position) (regions : Regions) (body : List Stmt),
      let inside := (regions.declare closure.name).enter declared.place closure.parameters
      origins[event]? = some declared
        ∧ Stands texts regions declared.place (.one (.function closure.name closure.parameters body))
        ∧ closure.body = Stmt.boundAll inside.frames body
        ∧ other = .function event ⟨closure.name,
            closure.parameters.map (r.token (some declared.place)),
            Stmt.boundAll (inside.renamed r).frames
              (Stmt.renamedAll r inside declared.place 0 body), closure.scope⟩
        ∧ declared.display.map Instance.site = regions.sites
        ∧ Labelled sites declared.display
  | value, other => value = other

namespace Value

variable {texts : Nat → List Stmt} {r : Renaming} {origins origins' : List Position}
  {sites sites' : List (Option Place)} {value value' other other' : Value}

lemma Resembles.grow (longer : origins <+: origins') (grown : sites <+: sites')
    (resembles : value.Resembles texts r origins sites other) :
    value.Resembles texts r origins' sites' other := by
  cases value with
  | function event closure =>
      obtain ⟨declared, regions, body, origin, stands, shape, otherNotNew, display, labelled⟩ :=
        resembles
      exact ⟨declared, regions, body, getElem?_left longer origin, stands, shape, otherNotNew,
        display, labelled.grow grown⟩
  | _ => exact resembles

/-- A value that is no function resembles itself. -/
lemma resembles_self (all : ∀ event closure, value ≠ .function event closure) :
    value.Resembles texts r origins sites value := by
  cases value with
  | function event closure => exact absurd rfl (all event closure)
  | _ => rfl

lemma Resembles.alike (resembles : value.Resembles texts r origins sites other) :
    value.Alike other := by
  cases value with
  | function event closure =>
      obtain ⟨declared, regions, body, _, _, _, rfl, _⟩ := resembles
      exact Or.inr ⟨event, closure, _, rfl, rfl, rfl⟩
  | _ => exact Or.inl resembles

end Value

/-! ## Stores -/

namespace Store

variable {texts : Nat → List Stmt} {r : Renaming} {origins origins' : List Position}
  {sites : List (Option Place)} {store store' : Store Value}

/-- The same scopes; what one of them binds is bound in the other under its name after renaming. -/
structure Resembles (texts : Nat → List Stmt) (r : Renaming) (origins : List Position)
    (sites : List (Option Place)) (store store' : Store Value) : Prop where
  size : store'.scopes.size = store.scopes.size
  length : sites.length = store.scopes.size
  globals : sites[Machine.globals]? = some none
  outer : ∀ i, store'.outer? i = store.outer? i
  values : ∀ {i site? name}, sites[i]? = some site? → name ≠ r.new →
    Option.Rel (Value.Resembles texts r origins sites) (store.local? i name)
      (store'.local? i (r.named site? name))

namespace Resembles

/-- Values stay alike when there are more declarations and more scopes. -/
lemma values_grow (resembles : store.Resembles texts r origins sites store')
    {sites' : List (Option Place)} (longer : origins <+: origins') (grown : sites <+: sites') {i : Nat}
    {site? : Option Place} {name : String} (site : sites'[i]? = some site?) (notNew : name ≠ r.new) :
    Option.Rel (Value.Resembles texts r origins' sites') (store.local? i name)
      (store'.local? i (r.named site? name)) := by
  by_cases inside : i < sites.length
  · obtain ⟨later, rfl⟩ := grown
    rw [List.getElem?_append_left inside] at site
    exact rel_imp (resembles.values site notNew) fun _ _ alike =>
      alike.grow longer (List.prefix_append _ _)
  · rw [resembles.length, not_lt] at inside
    rw [local?_eq_none inside, local?_eq_none (resembles.size ▸ inside)]
    exact Option.Rel.none

lemma grow (resembles : store.Resembles texts r origins sites store') (longer : origins <+: origins') :
    store.Resembles texts r origins' sites store' :=
  ⟨resembles.size, resembles.length, resembles.globals, resembles.outer, fun site name =>
    resembles.values_grow longer (List.prefix_refl _) site name⟩

lemma ancestor?_eq (resembles : store.Resembles texts r origins sites store') :
    ∀ distance i, store'.ancestor? i distance = store.ancestor? i distance
  | 0, i => by rw [ancestor?, ancestor?, resembles.size]
  | distance + 1, i => by
      rw [ancestor?, ancestor?, resembles.outer]
      cases store.outer? i with
      | none => rfl
      | some outer => exact ancestor?_eq resembles distance outer

/-- Binding a name in one store and its new name in the other keeps them alike. -/
lemma define (resembles : store.Resembles texts r origins sites store') {i : Nat} {site? : Option Place}
    {name : String} {value value' : Value} (site : sites[i]? = some site?) (notNew : name ≠ r.new)
    (valueAlike : value.Resembles texts r origins sites value') :
    (store.define i name value).Resembles texts r origins sites
      (store'.define i (r.named site? name) value') where
  size := by rw [size_define, size_define, resembles.size]
  length := by rw [size_define, resembles.length]
  globals := resembles.globals
  outer := fun j => by rw [outer?_define, outer?_define, resembles.outer]
  values := by
    intro j site?' other site' otherNotNew
    rw [local?_define, local?_define, resembles.size]
    have inside : i < store.scopes.size := by
      rw [← resembles.length]
      exact (List.getElem?_eq_some_iff.mp site).1
    by_cases self : j = i ∧ other = name
    · obtain ⟨rfl, rfl⟩ := self
      rw [site] at site'
      obtain rfl := Option.some.inj site'
      rw [if_pos ⟨rfl, rfl, inside⟩, if_pos ⟨rfl, rfl, inside⟩]
      exact Option.Rel.some valueAlike
    · rw [if_neg fun all => self ⟨all.1, all.2.1⟩, if_neg]
      · exact resembles.values site' otherNotNew
      · rintro ⟨rfl, named, _⟩
        rw [site] at site'
        obtain rfl := Option.some.inj site'
        exact self ⟨rfl, Renaming.eq_of_named_eq otherNotNew notNew named⟩

/-- A new scope on both sides. -/
lemma child (resembles : store.Resembles texts r origins sites store') (outer : Nat) (site : Place) :
    (store.child outer).2.Resembles texts r origins (sites ++ [some site])
      (store'.child outer).2 where
  size := by rw [size_child, size_child, resembles.size]
  length := by rw [size_child, List.length_append, resembles.length, List.length_singleton]
  globals := by
    rw [List.getElem?_append_left (List.getElem?_eq_some_iff.mp resembles.globals).1]
    exact resembles.globals
  outer := fun i => by rw [outer?_child, outer?_child, resembles.outer, resembles.size]
  values := by
    intro i site? name labelled notNew
    rw [local?_child, local?_child]
    exact resembles.values_grow (List.prefix_refl _) (List.prefix_append _ _) labelled notNew

end Resembles

end Store

/-! ## Machines -/

/-- The same machine, but with renamed scopes.  The host has no functions but the clock. -/
structure Machine.Resembles (texts : Nat → List Stmt) (r : Renaming) (origins : List Position)
    (sites : List (Option Place)) (machine machine' : Machine) : Prop where
  rest : machine' = { machine with store := machine'.store }
  events : origins.length = machine.events
  natives : ∀ native ∈ machine.natives, native = .clock
  store : machine.store.Resembles texts r origins sites machine'.store

/-- How the machines stand after a step on both sides: the scope is the same again. -/
structure Alongside (texts : Nat → List Stmt) (r : Renaming) (origins : List Position)
    (sites : List (Option Place)) (current : Nat) (origins' : List Position)
    (sites' : List (Option Place)) (after after' : Machine) : Prop where
  origins : origins <+: origins'
  sites : sites <+: sites'
  current : after.current = current
  alike : after.Resembles texts r origins' sites' after'

/-- Two outcomes that are alike: a value in the same state, or the same fault and the same output. -/
inductive Outcome.Resembles {α β : Type} (texts : Nat → List Stmt) (r : Renaming)
    (origins : List Position) (sites : List (Option Place)) (current : Nat)
    (origins' : List Position) (P : List Position → List (Option Place) → α → β → Prop) :
    Outcome α → Outcome β → Prop where
  | done {value : α} {value' : β} {after after' : Machine} {sites' : List (Option Place)} :
      Alongside texts r origins sites current origins' sites' after after' →
      P origins' sites' value value' →
      Resembles texts r origins sites current origins' P (.done value after) (.done value' after')
  | failed {fault : Fault} {after after' : Machine} : after'.sink = after.sink →
      Resembles texts r origins sites current origins' P (.failed fault after) (.failed fault after')
  | exhausted : Resembles texts r origins sites current origins' P .exhausted .exhausted

/-- Where nothing has been done. -/
lemma Machine.Resembles.stays {texts : Nat → List Stmt} {r : Renaming} {origins : List Position}
    {sites : List (Option Place)} {machine machine' : Machine}
    (resembles : machine.Resembles texts r origins sites machine') :
    Alongside texts r origins sites machine.current origins sites machine machine' :=
  ⟨List.prefix_refl _, List.prefix_refl _, rfl, resembles⟩

lemma Alongside.trans {texts : Nat → List Stmt} {r : Renaming} {origins origins' origins'' : List Position}
    {sites sites' sites'' : List (Option Place)} {current : Nat} {after after' last last' : Machine}
    (alongside : Alongside texts r origins sites current origins' sites' after after')
    (alongside' : Alongside texts r origins' sites' after.current origins'' sites'' last last') :
    Alongside texts r origins sites current origins'' sites'' last last' :=
  ⟨alongside.origins.trans alongside'.origins, alongside.sites.trans alongside'.sites,
    alongside'.current.trans alongside.current, alongside'.alike⟩

lemma Outcome.Resembles.after {α β : Type} {texts : Nat → List Stmt} {r : Renaming}
    {origins origins' origins'' : List Position} {sites sites' : List (Option Place)} {current : Nat}
    {after after' : Machine} {P : List Position → List (Option Place) → α → β → Prop}
    {outcome : Outcome α} {outcome' : Outcome β}
    (resembles : outcome.Resembles texts r origins' sites' after.current origins'' P outcome')
    (along : Alongside texts r origins sites current origins' sites' after after') :
    outcome.Resembles texts r origins sites current origins'' P outcome' := by
  cases resembles with
  | done along' holds => exact .done (along.trans along') holds
  | failed sink => exact .failed sink
  | exhausted => exact .exhausted

/-- A watched run and another one end alike, if all visits of the first find their scopes. -/
def Watched.Resembles {α β : Type} (texts : Nat → List Stmt) (r : Renaming)
    (origins : List Position) (sites : List (Option Place)) (current : Nat)
    (P : List Position → List (Option Place) → α → β → Prop) (watched : Watched α)
    (outcome : Outcome β) : Prop :=
  (∀ visit ∈ watched.visits, visit.Lexical texts) →
    watched.outcome.Resembles texts r origins sites current watched.origins P outcome

namespace Watched.Resembles

variable {α α' β β' : Type} {texts : Nat → List Stmt} {r : Renaming} {origins : List Position}
  {here : Position} {sites : List (Option Place)} {machine machine' : Machine}
  {P : List Position → List (Option Place) → α → α' → Prop}
  {Q : List Position → List (Option Place) → β → β' → Prop}

lemma pure (alike : machine.Resembles texts r origins sites machine') {value : α} {value' : α'}
    (holds : P origins sites value value') :
    Watched.Resembles texts r origins sites machine.current P
      ((Pure.pure value : Watch α) here origins machine) ((Pure.pure value' : Action α') machine') :=
  fun _ => .done alike.stays holds

lemma exhausted {current : Nat} : Watched.Resembles texts r origins sites current P
    ((Watch.steps.basic Action.exhausted : Watch α) here origins machine) .exhausted :=
  fun _ => .exhausted

lemma bind {first : Watch α} {first' : Action α'} {second : α → Watch β} {second' : α' → Action β'}
    (firstAlike : Watched.Resembles texts r origins sites machine.current P (first here origins machine)
      (first' machine'))
    (secondAlike : ∀ value value' origins' sites' after after',
      Alongside texts r origins sites machine.current origins' sites' after after' →
      P origins' sites' value value' →
      Watched.Resembles texts r origins' sites' after.current Q
        (second value here origins' after) (second' value' after')) :
    Watched.Resembles texts r origins sites machine.current Q
      ((first >>= second) here origins machine) ((first' >>= second') machine') := by
  show Watched.Resembles texts r origins sites machine.current Q
    (Watch.bind first second here origins machine) (Action.bind first' second' machine')
  unfold Watch.bind Action.bind
  generalize first' machine' = outcome' at firstAlike ⊢
  generalize first here origins machine = watched at firstAlike ⊢
  obtain ⟨outcome, origins', visits⟩ := watched
  intro lexical
  cases outcome with
  | done value after =>
      cases firstAlike fun visit h => lexical visit (List.mem_append_left _ h) with
      | done along holds =>
          exact (secondAlike _ _ _ _ _ _ along holds
            fun visit h => lexical visit (List.mem_append_right _ h)).after along
  | failed fault after =>
      cases firstAlike lexical with
      | failed sink => exact .failed sink
  | exhausted =>
      cases firstAlike lexical with
      | exhausted => exact .exhausted

/-- A step of which nothing is noted, when it succeeds on both sides. -/
lemma done {step : Action α} {step' : Action α'} {value : α} {value' : α'} {after after' : Machine}
    {sites' : List (Option Place)} (stepped : step machine = .done value after)
    (stepped' : step' machine' = .done value' after')
    (along : Alongside texts r origins sites machine.current origins sites' after after')
    (holds : P origins sites' value value') :
    Watched.Resembles texts r origins sites machine.current P
      (Watch.steps.basic step here origins machine) (step' machine') := by
  intro _
  rw [stepped', Watch.steps_basic, Watch.lift, stepped]
  exact .done along holds

/-- A step of which nothing is noted, when it fails on both sides. -/
lemma failed {step : Action α} {step' : Action α'} {fault : Fault} {after after' : Machine}
    {current : Nat} (stepped : step machine = .failed fault after)
    (stepped' : step' machine' = .failed fault after') (sink : after'.sink = after.sink) :
    Watched.Resembles texts r origins sites current P
      (Watch.steps.basic step here origins machine) (step' machine') := by
  intro _
  rw [stepped', Watch.steps_basic, Watch.lift, stepped]
  exact .failed sink

lemma weaken {current : Nat} {P' : List Position → List (Option Place) → α → α' → Prop}
    {watched : Watched α} {outcome : Outcome α'}
    (resembles : Watched.Resembles texts r origins sites current P watched outcome)
    (imp : ∀ origins' sites' value value', P origins' sites' value value' →
      P' origins' sites' value value') :
    Watched.Resembles texts r origins sites current P' watched outcome := by
  intro lexical
  obtain ⟨outcome₀, origins', visits⟩ := watched
  cases resembles lexical with
  | done along holds => exact .done along (imp _ _ _ _ holds)
  | failed sink => exact .failed sink
  | exhausted => exact .exhausted

lemma within {step : Watch α} {step' : Action α'} {scope : Nat}
    (alike : machine.Resembles texts r origins sites machine')
    (resembles : Watched.Resembles texts r origins sites scope P
      (step (here.enter scope) origins { machine with current := scope })
      (step' { machine' with current := scope })) :
    Watched.Resembles texts r origins sites machine.current P
      (Watch.steps.within scope step here origins machine) (Action.within scope step' machine') := by
  intro lexical
  rw [Watch.steps_within] at lexical ⊢
  unfold Watch.within at lexical ⊢
  unfold Action.within
  generalize step (here.enter scope) origins { machine with current := scope } = watched
    at resembles lexical ⊢
  generalize step' { machine' with current := scope } = outcome' at resembles ⊢
  obtain ⟨outcome, origins', visits⟩ := watched
  have sameCurrent : machine'.current = machine.current := by rw [alike.rest]
  cases resembles lexical with
  | @done value value' after after' sites' along holds =>
      refine .done ⟨along.origins, along.sites, rfl, ?_⟩ holds
      refine ⟨?_, along.alike.events, along.alike.natives, along.alike.store⟩
      rw [sameCurrent, along.alike.rest]
  | failed sink => exact .failed sink
  | exhausted => exact .exhausted

end Watched.Resembles

end LoxLang
