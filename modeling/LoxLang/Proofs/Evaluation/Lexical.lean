import LoxLang.Proofs.Evaluation.Watch
import LoxLang.Proofs.Store.Growth

/-!
# Scopes at run time are those of the source

The regions around a place and the scopes around a running program go in step.

* `Fits` — the chain of links from the current scope passes through one instance of each region, in
  the order of the regions, and ends at the globals; what a region has declared so far is bound in its
  instance.
* `Value.Placed` — a function carries a body that was bound where it was declared, and its scope still
  fits the regions around that place.  This is what lets a closure be called much later.
* `Machine.Placed` — all functions that are kept anywhere are of this kind.

* `Visit.Lexical` — what the invariant gives when an occurrence is visited: its hops lead to the
  scope that they stand for, and for a read the name is bound there.
-/

namespace LoxLang

/-! ## The invariant -/

/-- The scopes around a running program are instances of the regions around a place: each is enclosed
by the next, the last one by the globals, and each binds the names its region has declared. -/
inductive Fits (store : Store Value) : Regions → List Instance → Nat → Prop where
  | globals : Fits store [] [] Machine.globals
  | scope {region : Region} {regions : Regions} {display : List Instance} {scope outer : Nat} :
      store.outer? scope = some outer →
      (∀ name ∈ region.names, (store.local? scope name).isSome) →
      Fits store regions display outer →
      Fits store (region :: regions) (⟨region.site, scope⟩ :: display) scope

namespace Fits

variable {store store' : Store Value} {regions : Regions} {display : List Instance} {current : Nat}

lemma grow (grows : store.Grows store') (fits : Fits store regions display current) :
    Fits store' regions display current := by
  induction fits with
  | globals => exact Fits.globals
  | scope link bound _ ih =>
      exact Fits.scope (grows.outer link) (fun name declared => grows.bound (bound name declared)) ih

lemma sites_eq (fits : Fits store regions display current) :
    display.map Instance.site = regions.sites := by
  induction fits with
  | globals => rfl
  | scope _ _ _ ih =>
      rw [List.map_cons, ih]
      rfl

lemma lt_size (fits : Fits store regions display current) (some_ : 0 < store.scopes.size) :
    current < store.scopes.size := by
  cases fits with
  | globals => exact some_
  | scope link _ _ => exact Store.lt_size_of_outer? link

/-- Binding a name in the current scope keeps step with declaring it in the innermost region. -/
lemma declare (fits : Fits store regions display current) (name : Token) (value : Value) :
    Fits (store.define current name.lexeme value) (regions.declare name) display current := by
  have grows := Store.Grows.define store current name.lexeme value
  cases fits with
  | globals => exact Fits.globals
  | scope link bound rest =>
      refine Fits.scope (grows.outer link) ?_ (rest.grow grows)
      intro other declared
      rcases List.mem_cons.mp declared with rfl | declared
      · rw [Store.local?_define_self (Store.lt_size_of_outer? link)]
        rfl
      · exact grows.bound (bound other declared)

/-- The scope so many links away is the instance of the region so many steps out. -/
lemma ancestor?_eq (fits : Fits store regions display current) :
    ∀ {distance : Nat} {found : Instance}, display[distance]? = some found →
      store.ancestor? current distance = some found.scope ∧ found.scope ≠ Machine.globals := by
  induction fits with
  | globals => intro distance found finds; simp at finds
  | scope link _ _ ih =>
      intro distance found finds
      cases distance with
      | zero =>
          cases finds
          refine ⟨by simp [Store.ancestor?, Store.lt_size_of_outer? link], ?_⟩
          have lt := Store.outer?_lt link
          exact Nat.ne_of_gt (Nat.lt_of_le_of_lt (Nat.zero_le _) lt)
      | succ distance =>
          simp only [Store.ancestor?, link, Option.bind_some]
          exact ih finds

/-- Every region has its instance, which binds the names the region declares. -/
lemma exists_instance (fits : Fits store regions display current) :
    ∀ {distance : Nat} {region : Region}, regions[distance]? = some region →
      ∃ scope, display[distance]? = some ⟨region.site, scope⟩
        ∧ ∀ name ∈ region.names, (store.local? scope name).isSome := by
  induction fits with
  | globals => intro distance region around; simp at around
  | scope _ bound _ ih =>
      intro distance region around
      cases distance with
      | zero =>
          cases around
          exact ⟨_, rfl, bound⟩
      | succ distance => exact ih around

end Fits

/-- The region that hops lead to declares the name. -/
lemma Regions.exists_of_hops? {regions : Regions} {name : String} {distance : Nat}
    (found : regions.frames.hops? name = some distance) :
    ∃ region, regions[distance]? = some region ∧ name ∈ region.names := by
  obtain ⟨lt, contains, _⟩ := List.findIdx?_eq_some_iff_getElem.mp found
  have lt' : distance < regions.length := by simpa [Regions.frames] using lt
  refine ⟨regions[distance], List.getElem?_eq_getElem lt', ?_⟩
  simpa [Regions.frames] using contains

/-- A function was bound where it was declared, and its scope fits the regions around that place. -/
def Value.Placed (texts : Nat → List Stmt) (origins : List Position) (store : Store Value) :
    Value → Prop
  | .function event closure =>
    ∃ (declared : Position) (regions : Regions) (body : List Stmt),
      origins[event]? = some declared
        ∧ Stands texts regions declared.place (.one (.function closure.name closure.parameters body))
        ∧ closure.body
          = Stmt.boundAll ((regions.declare closure.name).enter declared.place
              closure.parameters).frames body
        ∧ Fits store (regions.declare closure.name) declared.display closure.scope
  | _ => True

/-- What a statement returns is placed. -/
def Completion.Placed (texts : Nat → List Stmt) (origins : List Position) (store : Store Value) :
    Completion → Prop
  | .normal => True
  | .returned value => value.Placed texts origins store

/-- A function of the host that makes no functions: it hands on those it was given, at most. -/
def Native.Modest : Native → Prop
  | .clock => True
  | .host _ apply => ∀ arguments value, apply arguments = .ok value →
      value ∈ arguments ∨ ∀ event closure, value ≠ .function event closure

/-- Every function that the scopes hold is placed. -/
structure Machine.Placed (texts : Nat → List Stmt) (origins : List Position) (machine : Machine) :
    Prop where
  events : origins.length = machine.events
  globals : 0 < machine.store.scopes.size
  natives : ∀ native ∈ machine.natives, native.Modest
  values : ∀ {i : Nat} {name : String} {value : Value},
    machine.store.local? i name = some value → value.Placed texts origins machine.store

lemma Value.Placed.of_ne_function {texts : Nat → List Stmt} {origins : List Position}
    {store : Store Value} {value : Value} (all : ∀ event closure, value ≠ .function event closure) :
    value.Placed texts origins store := by
  cases value with
  | function event closure => exact absurd rfl (all event closure)
  | _ => trivial

lemma Value.Placed.grow {texts : Nat → List Stmt} {origins origins' : List Position}
    {store store' : Store Value} (longer : origins <+: origins') (grows : store.Grows store') :
    ∀ {value : Value}, value.Placed texts origins store → value.Placed texts origins' store'
  | .function event closure, h => by
      obtain ⟨declared, regions, body, origin, stands, shape, fits⟩ := h
      refine ⟨declared, regions, body, ?_, stands, shape, fits.grow grows⟩
      obtain ⟨later, rfl⟩ := longer
      rw [List.getElem?_append_left (List.getElem?_eq_some_iff.mp origin).1]
      exact origin
  | .nil, _ | .bool _, _ | .number _, _ | .text _, _ | .native _ _, _ => trivial

/-! ## What a visit finds -/

/-- A visit finds the scope that the hops of its occurrence stand for: the source has the occurrence
at the place of the visit; binding found its name in the region so many steps out; and the scope so
many links away is the instance of that region in the current activation, not the globals, and binds
the name if it is to be read. -/
def Visit.Lexical (texts : Nat → List Stmt) (visit : Visit) : Prop :=
  ∀ distance, visit.occurrence.hops = some distance →
    ∃ (regions : Regions) (region : Region) (scope : Nat),
      Mentions texts regions visit.position.place { visit.occurrence with hops := none }
        ∧ regions.frames.hops? visit.occurrence.name.lexeme = some distance
        ∧ regions[distance]? = some region
        ∧ visit.position.display.map Instance.site = regions.sites
        ∧ visit.position.display[distance]? = some ⟨region.site, scope⟩
        ∧ visit.machine.store.ancestor? visit.machine.current distance = some scope
        ∧ scope ≠ Machine.globals
        ∧ (visit.occurrence.assigned = false →
            (visit.machine.store.local? scope visit.occurrence.name.lexeme).isSome)

/-- If a name is undefined, then the last visit was one to an occurrence of it without hops. -/
def Fault.Explained (visits : List Visit) (fault : Fault) : Prop :=
  ∀ name line, fault = .runtime (.undefined name) line → ∃ visit, visits.getLast? = some visit
    ∧ visit.occurrence.hops = none ∧ visit.occurrence.name.lexeme = name
    ∧ visit.occurrence.name.line = line

/-- A settled occurrence, visited where the scopes fit the regions around the place, finds its
scope. -/
lemma Settled.lexical {texts : Nat → List Stmt} {around : Regions} {here : Position}
    {occurrence : Occurrence} {machine : Machine} (settled : Settled texts around here.place occurrence)
    (fits : Fits machine.store around here.display machine.current) :
    Visit.Lexical texts ⟨occurrence, here, machine⟩ := by
  intro distance hops
  obtain ⟨regions, mentions, sites, found, read⟩ := settled distance hops
  obtain ⟨region, around', _⟩ := Regions.exists_of_hops? found
  have at_ : (regions.sites)[distance]? = some region.site := by
    rw [Regions.sites, List.getElem?_map, around']
    rfl
  have sites' := fits.sites_eq
  have here_ : (here.display.map Instance.site)[distance]? = some region.site := by
    rw [sites', ← sites]
    exact at_
  rw [List.getElem?_map, Option.map_eq_some_iff] at here_
  obtain ⟨⟨site, scope⟩, finds, rfl⟩ := here_
  obtain ⟨ancestor, globals⟩ := fits.ancestor?_eq finds
  refine ⟨regions, region, scope, mentions, found, around', by rw [sites]; exact sites',
    finds, ancestor, globals, ?_⟩
  intro assigned
  obtain ⟨region', around'', name⟩ := Regions.exists_of_hops? (read assigned)
  obtain ⟨scope', finds', bound⟩ := fits.exists_instance around''
  rw [finds, Option.some.injEq, Instance.mk.injEq] at finds'
  rw [finds'.2]
  exact bound _ name

end LoxLang
