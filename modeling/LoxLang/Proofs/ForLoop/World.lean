import Mathlib
import LoxLang.Proofs.Evaluation.Revised
import LoxLang.Proofs.Evaluation.SideBySide
import LoxLang.Proofs.ForLoop.Bound
import LoxLang.Proofs.ForLoop.Run
import LoxLang.Proofs.Store.Growth

/-!
# Two runs side by side

One run reads the `for` loops directly, the other one runs the blocks in their place.  The second one
has all scopes of the first one, under other numbers, and between them the scopes of the rounds, in
which no name is ever bound.

* `World` — which scope of the one run stands for which scope of the other, what encloses what, and the
  bodies of the functions; `World.Grows`, how it grows.
* `World.Stands` — the scopes around two places correspond, in a layout.
* `World.Mirrors` — two values are the same, functions up to the scopes they were declared in.
* **`World.Mirror`** — two machines with the same variables.
* **`World.Stands.ancestor`** — hops lead to corresponding scopes.
-/

namespace LoxLang

namespace Looped

/-- What relates a direct run to a run without `for` loops. -/
structure World where
  /-- The scope of the other run that stands for a scope. -/
  place : List Nat
  /-- The bodies of the functions declared so far. -/
  bodies : Bodies
  /-- What encloses a scope of the direct run. -/
  links : List (Option Nat)
  /-- What encloses a scope of the other run. -/
  links' : List (Option Nat)
  length : place.length = links.length
  increasing : place.Pairwise (· < ·)
  bounded : ∀ i' ∈ place, i' < links'.length
  globals : place[0]? = some 0 ∧ links[0]? = some none ∧ links'[0]? = some none

namespace World

/-- The second world comes from the first one. -/
structure Grows (w w' : World) : Prop where
  place : w.place <+: w'.place
  bodies : w.bodies <+: w'.bodies
  links : w.links <+: w'.links
  links' : w.links' <+: w'.links'

lemma Grows.refl (w : World) : w.Grows w :=
  ⟨List.prefix_rfl, List.prefix_rfl, List.prefix_rfl, List.prefix_rfl⟩

lemma Grows.trans {first second third : World} (one : first.Grows second)
    (two : second.Grows third) : first.Grows third :=
  ⟨one.place.trans two.place, one.bodies.trans two.bodies, one.links.trans two.links,
    one.links'.trans two.links'⟩

/-! ## How a world grows -/

section

variable (w : World)

/-- A scope on both sides. -/
def enter (outer outer' : Nat) : World where
  place := w.place ++ [w.links'.length]
  bodies := w.bodies
  links := w.links ++ [some outer]
  links' := w.links' ++ [some outer']
  length := by simp [w.length]
  increasing := List.pairwise_append.mpr ⟨w.increasing, List.pairwise_singleton _ _,
    fun i' mem last same => by rw [List.mem_singleton.mp same]; exact w.bounded i' mem⟩
  bounded := by
    intro i' mem
    rcases List.mem_append.mp mem with old | new
    · exact (w.bounded i' old).trans (by simp)
    · rw [List.mem_singleton.mp new]
      simp
  globals := ⟨getElem?_left ⟨_, rfl⟩ w.globals.1, getElem?_left ⟨_, rfl⟩ w.globals.2.1,
    getElem?_left ⟨_, rfl⟩ w.globals.2.2⟩

/-- The scope of a round, which the direct run does not have. -/
def pad (outer' : Nat) : World where
  place := w.place
  bodies := w.bodies
  links := w.links
  links' := w.links' ++ [some outer']
  length := w.length
  increasing := w.increasing
  bounded := fun i' mem => (w.bounded i' mem).trans (by simp)
  globals := ⟨w.globals.1, w.globals.2.1, getElem?_left ⟨_, rfl⟩ w.globals.2.2⟩

/-- A function declaration. -/
def declare (body : List Declaration) : World := { w with bodies := w.bodies ++ [body] }

lemma grows_enter (outer outer' : Nat) : w.Grows (w.enter outer outer') :=
  ⟨⟨_, rfl⟩, List.prefix_rfl, ⟨_, rfl⟩, ⟨_, rfl⟩⟩

lemma grows_pad (outer' : Nat) : w.Grows (w.pad outer') :=
  ⟨List.prefix_rfl, List.prefix_rfl, List.prefix_rfl, ⟨_, rfl⟩⟩

lemma grows_declare (body : List Declaration) : w.Grows (w.declare body) :=
  ⟨List.prefix_rfl, ⟨_, rfl⟩, List.prefix_rfl, List.prefix_rfl⟩

/-! ## Places and values -/

/-- From two scopes outwards the same scopes follow, with empty ones in between as the layout has
them. -/
inductive Stands : Layout → Nat → Nat → Prop where
  | globals {i i' : Nat} : w.place[i]? = some i' → w.links[i]? = some none →
      w.links'[i']? = some none → Stands [0] i i'
  | scope {i i' o o' : Nat} {layout : Layout} : w.place[i]? = some i' →
      w.links[i]? = some (some o) → w.links'[i']? = some (some o') → Stands layout o o' →
      Stands (0 :: layout) i i'
  | round {i i' o' empty : Nat} {layout : Layout} : w.links'[i']? = some (some o') →
      Stands (empty :: layout) i o' → Stands ((empty + 1) :: layout) i i'

/-- Two values are the same; functions come from the same declaration, with the same name, the same
parameters and the same body, and were declared in scopes that correspond. -/
inductive Mirrors : Value → Value → Prop where
  | nil : Mirrors .nil .nil
  | bool (value : Bool) : Mirrors (.bool value) (.bool value)
  | number (value : Float) : Mirrors (.number value) (.number value)
  | text (value : String) : Mirrors (.text value) (.text value)
  | native (index arity : Nat) : Mirrors (.native index arity) (.native index arity)
  | function {event : Nat} {closure closure' : Closure} {layout : Layout}
      {body : List Declaration} : closure'.name = closure.name →
      closure'.parameters = closure.parameters →
      w.Stands layout closure.scope closure'.scope → w.bodies[event]? = some body →
      closure'.body = Declaration.laidAll (0 :: layout) body →
      Mirrors (.function event closure) (.function event closure')

/-- **Two machines with the same variables.**  Each scope of the direct run holds the same values as the
one that stands for it, all other scopes are empty, and nothing else differs. -/
structure Mirror (machine machine' : Machine) : Prop where
  size : machine.store.scopes.size = w.links.length
  size' : machine'.store.scopes.size = w.links'.length
  links : ∀ i < w.links.length, w.links[i]? = some (machine.store.outer? i)
  links' : ∀ i' < w.links'.length, w.links'[i']? = some (machine'.store.outer? i')
  values : ∀ i i', w.place[i]? = some i' → ∀ name,
    Option.Rel w.Mirrors (machine.store.local? i name) (machine'.store.local? i' name)
  empty : ∀ i' ∉ w.place, ∀ name, machine'.store.local? i' name = none
  events : machine.events = w.bodies.length
  events' : machine'.events = machine.events
  unhosted : machine.Unhosted
  natives : machine'.natives = machine.natives
  clock : machine'.clock = machine.clock
  readings : machine'.readings = machine.readings
  sink : machine'.sink = machine.sink

end

variable {w w' : World} {machine machine' : Machine} {layout : Layout} {i i' : Nat}

lemma Stands.mono (stands : w.Stands layout i i') (grows : w.Grows w') :
    w'.Stands layout i i' := by
  induction stands with
  | globals place link link' =>
      exact .globals (getElem?_left grows.place place) (getElem?_left grows.links link)
        (getElem?_left grows.links' link')
  | scope place link link' _ ih =>
      exact .scope (getElem?_left grows.place place) (getElem?_left grows.links link)
        (getElem?_left grows.links' link') ih
  | round link' _ ih => exact .round (getElem?_left grows.links' link') ih

lemma Mirrors.mono {value value' : Value} (same : w.Mirrors value value') (grows : w.Grows w') :
    w'.Mirrors value value' := by
  cases same with
  | function name parameters stands body laid =>
      exact .function name parameters (stands.mono grows) (getElem?_left grows.bodies body)
        laid
  | nil => exact .nil
  | bool value => exact .bool value
  | number value => exact .number value
  | text value => exact .text value
  | native index arity => exact .native index arity

/-- A value that is no function is the same on both sides. -/
lemma mirrors_self {value : Value} (plain : ∀ event closure, value ≠ .function event closure) :
    w.Mirrors value value := by
  cases value with
  | function event closure => exact absurd rfl (plain event closure)
  | nil => exact .nil
  | bool value => exact .bool value
  | number value => exact .number value
  | text value => exact .text value
  | native index arity => exact .native index arity

lemma mirrors_constant (constant : Constant) : w.Mirrors constant.value constant.value := by
  cases constant <;> exact mirrors_self fun _ _ same => by cases same

/-- Operators do not see the difference. -/
lemma Mirrors.alike {value value' : Value} (same : w.Mirrors value value') :
    value.Alike value' := by
  cases same with
  | function name _ _ _ _ => exact .inr ⟨_, _, _, rfl, rfl, name⟩
  | _ => exact .inl rfl

/-- Where no empty scope is in front, the scopes themselves correspond. -/
lemma Stands.here (stands : w.Stands (0 :: layout) i i') : w.place[i]? = some i' := by
  cases stands with
  | globals place _ _ => exact place
  | scope place _ _ _ => exact place

lemma place_globals : w.place[Machine.globals]? = some Machine.globals := w.globals.1

lemma stands_globals : w.Stands [0] Machine.globals Machine.globals :=
  .globals w.globals.1 w.globals.2.1 w.globals.2.2

lemma stands_enter {outer outer' : Nat} (stands : w.Stands layout outer outer') :
    (w.enter outer outer').Stands (0 :: layout) w.links.length w.links'.length :=
  .scope (by rw [← w.length]; exact List.getElem?_concat_length) List.getElem?_concat_length
    List.getElem?_concat_length (stands.mono (w.grows_enter outer outer'))

lemma stands_pad (stands : w.Stands layout i i') :
    (w.pad i').Stands layout.deepen i w.links'.length := by
  have deeper := stands.mono (w.grows_pad i')
  cases layout with
  | nil => cases stands
  | cons empty layout => exact .round List.getElem?_concat_length deeper

/-- Different scopes have different places. -/
lemma place_inj {j : Nat} (one : w.place[i]? = some i') (other : w.place[j]? = some i') : i = j := by
  obtain ⟨low, rfl⟩ := List.getElem?_eq_some_iff.mp one
  obtain ⟨high, same⟩ := List.getElem?_eq_some_iff.mp other
  have distinct : w.place.Nodup := w.increasing.imp ne_of_lt
  exact (distinct.getElem_inj_iff.mp same).symm

/-! ## Links -/

namespace Mirror

variable (mirror : w.Mirror machine machine')

include mirror

lemma outer_of_links {link : Option Nat} (found : w.links[i]? = some link) :
    machine.store.outer? i = link := by
  have known := mirror.links i (List.getElem?_eq_some_iff.mp found).1
  rw [found] at known
  exact (Option.some.inj known).symm

lemma outer_of_links' {link : Option Nat} (found : w.links'[i']? = some link) :
    machine'.store.outer? i' = link := by
  have known := mirror.links' i' (List.getElem?_eq_some_iff.mp found).1
  rw [found] at known
  exact (Option.some.inj known).symm

lemma lt_of_place (found : w.place[i]? = some i') :
    i < machine.store.scopes.size ∧ i' < machine'.store.scopes.size := by
  rw [mirror.size, mirror.size', ← w.length]
  exact ⟨(List.getElem?_eq_some_iff.mp found).1, w.bounded i' (List.mem_of_getElem? found)⟩

end Mirror

/-- **Hops lead to corresponding scopes**, across the empty ones. -/
theorem Stands.ancestor (mirror : w.Mirror machine machine') (stands : w.Stands layout i i') :
    ∀ hops, Option.Rel (fun j j' => w.place[j]? = some j') (machine.store.ancestor? i hops)
      (machine'.store.ancestor? i' (layout.across hops)) := by
  induction stands with
  | globals place link link' =>
      obtain ⟨inside, inside'⟩ := mirror.lt_of_place place
      intro hops
      cases hops with
      | zero =>
          simp only [Layout.across, Store.ancestor?, inside, inside', if_true]
          exact .some place
      | succ hops =>
          have none_ := mirror.outer_of_links link
          have none' := mirror.outer_of_links' link'
          have across : Layout.across [0] (hops + 1) = hops + 1 := by
            simp only [Layout.across]
            omega
          rw [across, Store.ancestor?, Store.ancestor?, none_, none']
          exact .none
  | @scope i i' o o' layout place link link' _ ih =>
      obtain ⟨inside, inside'⟩ := mirror.lt_of_place place
      intro hops
      cases hops with
      | zero =>
          simp only [Layout.across, Store.ancestor?, inside, inside', if_true]
          exact .some place
      | succ hops =>
          have across : Layout.across (0 :: layout) (hops + 1) = layout.across hops + 1 := by
            simp only [Layout.across]
            omega
          rw [across, Store.ancestor?, Store.ancestor?, mirror.outer_of_links link,
            mirror.outer_of_links' link']
          exact ih hops
  | @round i i' o' empty layout link' _ ih =>
      intro hops
      have across : Layout.across ((empty + 1) :: layout) hops =
          Layout.across (empty :: layout) hops + 1 := by
        cases hops with
        | zero => rfl
        | succ hops =>
            simp only [Layout.across]
            omega
      rw [across, Store.ancestor?, mirror.outer_of_links' link']
      exact ih hops

/-- A list that holds all links still does with a scope more. -/
lemma links_child {links : List (Option Nat)} {store : Store Value} {outer : Nat}
    (size : store.scopes.size = links.length) (inside : outer < store.scopes.size)
    (known : ∀ i < links.length, links[i]? = some (store.outer? i)) :
    ∀ i < (links ++ [some outer]).length,
      (links ++ [some outer])[i]? = some ((store.child outer).2.outer? i) := by
  intro i low
  rw [List.length_append, List.length_singleton] at low
  rw [Store.outer?_child, size]
  by_cases last : i = links.length
  · subst last
    rw [size] at inside
    rw [if_pos rfl, if_pos inside, List.getElem?_concat_length]
  · rw [if_neg last, List.getElem?_append_left (by omega), known i (by omega)]

/-- Hops lead to the same value. -/
lemma Stands.getAt (mirror : w.Mirror machine machine') (stands : w.Stands layout i i') (hops : Nat)
    (name : String) : Option.Rel w.Mirrors (machine.store.getAt? i hops name)
      (machine'.store.getAt? i' (layout.across hops) name) := by
  have scopes := stands.ancestor mirror hops
  simp only [Store.getAt?]
  generalize machine.store.ancestor? i hops = scope at scopes
  generalize machine'.store.ancestor? i' (layout.across hops) = scope' at scopes
  cases scopes with
  | none => exact .none
  | some place => exact mirror.values _ _ place name

/-! ## Machines that change alike -/

lemma Stands.lt (mirror : w.Mirror machine machine') (stands : w.Stands layout i i') :
    i < machine.store.scopes.size ∧ i' < machine'.store.scopes.size := by
  induction stands with
  | globals place _ _ => exact mirror.lt_of_place place
  | scope place _ _ _ _ => exact mirror.lt_of_place place
  | round link' _ ih =>
      exact ⟨ih.1, by rw [mirror.size']; exact (List.getElem?_eq_some_iff.mp link').1⟩

namespace Mirror

variable (mirror : w.Mirror machine machine')

include mirror

lemma current (scope scope' : Nat) :
    w.Mirror { machine with current := scope } { machine' with current := scope' } :=
  ⟨mirror.size, mirror.size', mirror.links, mirror.links', mirror.values, mirror.empty,
    mirror.events, mirror.events', mirror.unhosted, mirror.natives, mirror.clock, mirror.readings,
    mirror.sink⟩

lemma withSink (sink : Sink) : w.Mirror { machine with sink } { machine' with sink } :=
  ⟨mirror.size, mirror.size', mirror.links, mirror.links', mirror.values, mirror.empty,
    mirror.events, mirror.events', mirror.unhosted, mirror.natives, mirror.clock, mirror.readings,
    rfl⟩

lemma read : w.Mirror { machine with readings := machine.readings + 1 }
    { machine' with readings := machine'.readings + 1 } :=
  ⟨mirror.size, mirror.size', mirror.links, mirror.links', mirror.values, mirror.empty,
    mirror.events, mirror.events', mirror.unhosted, mirror.natives, mirror.clock,
    congrArg (· + 1) mirror.readings, mirror.sink⟩

/-- A name is bound in scopes that correspond. -/
lemma define (place : w.place[i]? = some i') (name : String) {value value' : Value}
    (same : w.Mirrors value value') :
    w.Mirror { machine with store := machine.store.define i name value }
      { machine' with store := machine'.store.define i' name value' } := by
  obtain ⟨inside, inside'⟩ := mirror.lt_of_place place
  refine ⟨?_, ?_, ?_, ?_, ?_, ?_, mirror.events, mirror.events', mirror.unhosted, mirror.natives,
    mirror.clock, mirror.readings, mirror.sink⟩
  · simpa using mirror.size
  · simpa using mirror.size'
  · simpa using mirror.links
  · simpa using mirror.links'
  · intro j j' placed other
    rw [Store.local?_define, Store.local?_define]
    by_cases here : j = i ∧ other = name
    · obtain ⟨rfl, rfl⟩ := here
      obtain rfl : j' = i' := Option.some.inj (placed.symm.trans place)
      rw [if_pos ⟨rfl, rfl, inside⟩, if_pos ⟨rfl, rfl, inside'⟩]
      exact .some same
    · have there : ¬(j' = i' ∧ other = name ∧ i' < machine'.store.scopes.size) := by
        rintro ⟨rfl, rfl, -⟩
        exact here ⟨place_inj placed place, rfl⟩
      rw [if_neg fun both => here ⟨both.1, both.2.1⟩, if_neg there]
      exact mirror.values j j' placed other
  · intro j' outside other
    have there : j' ≠ i' := by
      rintro rfl
      exact outside (List.mem_of_getElem? place)
    rw [Store.local?_define, if_neg fun both => there both.1]
    exact mirror.empty j' outside other

/-- Values still correspond when the world grows. -/
lemma values_mono (grows : w.Grows w') (placed : w.place[i]? = some i') (name : String) :
    Option.Rel w'.Mirrors (machine.store.local? i name) (machine'.store.local? i' name) :=
  rel_imp (mirror.values i i' placed name) fun _ _ same => same.mono grows

/-- A function is declared. -/
lemma declared (body : List Declaration) : (w.declare body).Mirror
    { machine with events := machine.events + 1 } { machine' with events := machine'.events + 1 } := by
  have events : machine.events + 1 = (w.bodies ++ [body]).length := by simp [mirror.events]
  refine ⟨mirror.size, mirror.size', mirror.links, mirror.links', ?_, mirror.empty, events,
    congrArg (· + 1) mirror.events', mirror.unhosted, mirror.natives, mirror.clock,
    mirror.readings, mirror.sink⟩
  exact fun i i' placed name => mirror.values_mono (w.grows_declare body) placed name

/-- A scope is made on both sides. -/
lemma enter {outer outer' : Nat} (stands : w.Stands layout outer outer') :
    (w.enter outer outer').Mirror { machine with store := (machine.store.child outer).2 }
      { machine' with store := (machine'.store.child outer').2 } := by
  obtain ⟨inside, inside'⟩ := stands.lt mirror
  refine ⟨?_, ?_, links_child mirror.size inside mirror.links,
    links_child mirror.size' inside' mirror.links', ?_, ?_, mirror.events, mirror.events',
    mirror.unhosted, mirror.natives, mirror.clock, mirror.readings, mirror.sink⟩
  · simp [World.enter, mirror.size]
  · simp [World.enter, mirror.size']
  · intro i i' placed name
    rw [Store.local?_child, Store.local?_child]
    by_cases old : i < w.place.length
    · rw [World.enter, List.getElem?_append_left old] at placed
      exact mirror.values_mono (w.grows_enter outer outer') placed name
    · -- The two new scopes bind nothing.
      have last : i' = w.links'.length := by
        have low := (List.getElem?_eq_some_iff.mp placed).1
        simp only [World.enter, List.length_append, List.length_singleton] at low
        obtain rfl : i = w.place.length := by omega
        exact (Option.some.inj (placed.symm.trans List.getElem?_concat_length))
      have young : machine.store.scopes.size ≤ i := by rw [mirror.size, ← w.length]; omega
      rw [Store.local?_eq_none young, last, Store.local?_eq_none mirror.size'.le]
      exact .none
  · intro i' outside name
    rw [Store.local?_child]
    exact mirror.empty i' (fun mem => outside (List.mem_append_left _ mem)) name

/-- A scope is made for a round, on one side only. -/
lemma pad {outer' : Nat} (stands : w.Stands layout i outer') :
    (w.pad outer').Mirror machine { machine' with store := (machine'.store.child outer').2 } := by
  refine ⟨mirror.size, ?_, mirror.links,
    links_child mirror.size' (stands.lt mirror).2 mirror.links', ?_, ?_, mirror.events,
    mirror.events', mirror.unhosted, mirror.natives, mirror.clock, mirror.readings, mirror.sink⟩
  · simp [World.pad, mirror.size']
  · intro i i' placed name
    rw [Store.local?_child]
    exact mirror.values_mono (w.grows_pad outer') placed name
  · intro i' outside name
    rw [Store.local?_child]
    exact mirror.empty i' outside name

end Mirror

end World

end Looped

end LoxLang
