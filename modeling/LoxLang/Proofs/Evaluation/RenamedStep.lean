import LoxLang.Proofs.Evaluation.Keeps
import LoxLang.Proofs.Evaluation.Resemblance

/-!
# Single steps of a program and of the renamed one

* `Aligned` — where the first run is: its instances are those of the regions around the place, and the
  current scope is the innermost of them.
* One lemma for each step that touches the machine: both machines do it, each with its own names, and
  stay alike.
-/

namespace LoxLang

variable {texts : Nat → List Stmt} {r : Renaming} {origins : List Position}
  {sites : List (Option Place)} {machine machine' : Machine} {regions : Regions} {here : Position}

/-- A run is at a position inside regions, in a scope of the innermost of them. -/
structure Aligned (sites : List (Option Place)) (regions : Regions) (here : Position)
    (current : Nat) : Prop where
  display : here.display.map Instance.site = regions.sites
  labelled : Labelled sites here.display
  innermost : sites[current]? = some regions.innermost?

namespace Aligned

variable {current : Nat}

lemma next (aligned : Aligned sites regions here current) {origins' : List Position}
    {sites' : List (Option Place)} {after after' : Machine}
    (along : Alongside texts r origins sites current origins' sites' after after') :
    Aligned sites' regions here after.current := by
  refine ⟨aligned.display, aligned.labelled.grow along.sites, ?_⟩
  obtain ⟨later, longer_⟩ := along.sites
  rw [along.current, ← longer_,
    List.getElem?_append_left (List.getElem?_eq_some_iff.mp aligned.innermost).1]
  exact aligned.innermost

/-- Only the places of the regions matter, not what they have declared so far. -/
lemma of_sites (aligned : Aligned sites regions here current) {regions' : Regions}
    (same : regions'.sites = regions.sites) : Aligned sites regions' here current := by
  refine ⟨by rw [same]; exact aligned.display, aligned.labelled, ?_⟩
  rw [Regions.innermost?, same]
  exact aligned.innermost

end Aligned

namespace Machine.Resembles

lemma current_eq (resembles : machine.Resembles texts r origins sites machine') :
    machine'.current = machine.current := by rw [resembles.rest]

lemma sink_eq (resembles : machine.Resembles texts r origins sites machine') :
    machine'.sink = machine.sink := by rw [resembles.rest]

/-- The same machines with other scopes that are alike. -/
lemma with_store (resembles : machine.Resembles texts r origins sites machine')
    {sites' : List (Option Place)} {store store' : Store Value}
    (storeAlike : store.Resembles texts r origins sites' store') :
    Machine.Resembles texts r origins sites' { machine with store := store }
      { machine' with store := store' } :=
  ⟨by rw [resembles.rest], resembles.events, resembles.natives, storeAlike⟩

end Machine.Resembles

/-! ## Steps without names -/

/-- What is said of two values: they resemble each other. -/
abbrev ResemblingValue (texts : Nat → List Stmt) (r : Renaming) (origins : List Position)
    (sites : List (Option Place)) (value value' : Value) : Prop :=
  value.Resembles texts r origins sites value'

lemma resembles_fail {α α' : Type} {P : List Position → List (Option Place) → α → α' → Prop}
    (alike : machine.Resembles texts r origins sites machine') (error : RuntimeError)
    (place : Token) :
    Watched.Resembles texts r origins sites machine.current P
      ((Watch.steps.basic (Action.fail error place) : Watch α) here origins machine)
      ((Action.fail error place : Action α') machine') :=
  Watched.Resembles.failed rfl rfl alike.sink_eq

lemma resembles_ofExcept (alike : machine.Resembles texts r origins sites machine')
    {result : Except RuntimeError Value} (plain : OperatorResult result) (place : Token) :
    Watched.Resembles texts r origins sites machine.current (ResemblingValue texts r)
      (Watch.steps.basic (Action.ofExcept place result) here origins machine)
      (Action.ofExcept place result machine') := by
  cases result with
  | ok value => exact Watched.Resembles.done rfl rfl alike.stays (Value.resembles_self plain)
  | error error => exact resembles_fail alike error place

lemma resembles_print (alike : machine.Resembles texts r origins sites machine') (text : String) :
    Watched.Resembles texts r origins sites machine.current (fun _ _ _ _ => True)
      (Watch.steps.print text here origins machine) (Action.print text machine') := by
  rcases write : machine.sink.write (text ++ "\n").toUTF8 with ⟨refusal, sink⟩
  have write' : machine'.sink.write (text ++ "\n").toUTF8 = ⟨refusal, sink⟩ := by
    rw [alike.sink_eq, write]
  cases refusal with
  | none =>
      have print : Action.print text machine = .done () { machine with sink } := by
        simp only [Action.print, write]
      have print' : Action.print text machine' = .done () { machine' with sink } := by
        simp only [Action.print, write']
      refine Watched.Resembles.done print print' ⟨List.prefix_refl _, List.prefix_refl _, rfl, ?_⟩
        trivial
      exact ⟨by rw [alike.rest], alike.events, alike.natives, alike.store⟩
  | some error =>
      have print : Action.print text machine = .failed (.output error) { machine with sink } := by
        simp only [Action.print, write]
      have print' : Action.print text machine'
          = .failed (.output error) { machine' with sink } := by
        simp only [Action.print, write']
      exact Watched.Resembles.failed print print' rfl

/-- The host has only its clock, and that shows the same to both. -/
lemma resembles_callNative (alike : machine.Resembles texts r origins sites machine')
    (index : Nat) (paren : Token) (arguments arguments' : List Value) :
    Watched.Resembles texts r origins sites machine.current (ResemblingValue texts r)
      (Watch.steps.basic (Action.callNative index paren arguments) here origins machine)
      (Action.callNative index paren arguments' machine') := by
  have natives : machine'.natives = machine.natives := by rw [alike.rest]
  cases known : machine.natives[index]? with
  | none =>
      have call : Action.callNative index paren arguments machine
          = .failed (.runtime .notCallable paren.line) machine := by
        simp only [Action.callNative, known]
      have call' : Action.callNative index paren arguments' machine'
          = .failed (.runtime .notCallable paren.line) machine' := by
        simp only [Action.callNative, natives, known]
      exact Watched.Resembles.failed call call' alike.sink_eq
  | some native =>
      obtain rfl := alike.natives native (List.mem_of_getElem? known)
      have call : Action.callNative index paren arguments machine = Action.readClock machine := by
        simp only [Action.callNative, known]
      have call' : Action.callNative index paren arguments' machine'
          = Action.readClock machine' := by
        simp only [Action.callNative, natives, known]
      have shown : machine'.clock machine'.readings = machine.clock machine.readings := by
        rw [alike.rest]
      rw [Action.readClock] at call call'
      refine Watched.Resembles.done call call' ⟨List.prefix_refl _, List.prefix_refl _, rfl, ?_⟩ ?_
      · exact ⟨by rw [alike.rest], alike.events, alike.natives, alike.store⟩
      · rw [shown]
        exact Value.resembles_self fun _ _ h => by cases h

/-! ## Steps that bind names -/

/-- Both sides bind a name in the same scope, each its own one. -/
lemma resembles_store (alike : machine.Resembles texts r origins sites machine') {scope : Nat}
    {site? : Option Place} (site : sites[scope]? = some site?) {name : String} (notNew : name ≠ r.new)
    {value value' : Value} (valueAlike : value.Resembles texts r origins sites value')
    {step step' : Action Unit}
    (stepped : step machine
      = .done () { machine with store := machine.store.define scope name value })
    (stepped' : step' machine'
      = .done () { machine' with store := machine'.store.define scope (r.named site? name) value' }) :
    Watched.Resembles texts r origins sites machine.current (fun _ _ _ _ => True)
      (Watch.steps.basic step here origins machine) (step' machine') := by
  have storeAlike := alike.store.define site notNew valueAlike
  exact Watched.Resembles.done stepped stepped'
    ⟨List.prefix_refl _, List.prefix_refl _, rfl, alike.with_store storeAlike⟩ trivial

lemma resembles_define (alike : machine.Resembles texts r origins sites machine')
    {site? : Option Place} (site : sites[machine.current]? = some site?) {name : Token}
    (notNew : name.lexeme ≠ r.new) {value value' : Value}
    (valueAlike : value.Resembles texts r origins sites value') :
    Watched.Resembles texts r origins sites machine.current (fun _ _ _ _ => True)
      (Watch.steps.basic (Action.define name value) here origins machine)
      (Action.define (r.token site? name) value' machine') := by
  refine resembles_store alike site notNew valueAlike rfl ?_
  rw [← alike.current_eq]
  rfl

lemma resembles_openScope (alike : machine.Resembles texts r origins sites machine')
    (outer : Nat) (site : Place) :
    Watched.Resembles texts r origins sites machine.current
      (fun _ sites' scope scope' => scope' = scope ∧ sites'[scope]? = some (some site))
      (Watch.steps.basic (Action.openScope outer) here origins machine)
      (Action.openScope outer machine') := by
  have store := alike.store.child outer site
  refine Watched.Resembles.done rfl rfl
    ⟨List.prefix_refl _, List.prefix_append _ _, rfl, alike.with_store store⟩ ⟨?_, ?_⟩
  · exact alike.store.size
  · show (sites ++ [some site])[machine.store.scopes.size]? = _
    rw [← alike.store.length, List.getElem?_concat_length]

/-- Parameters are bound to arguments in the same order. -/
lemma resembles_bindAll {scope : Nat} {site : Place} : ∀ {parameters : List Token}
    {arguments arguments' : List Value} {machine machine' : Machine},
    machine.Resembles texts r origins sites machine' → sites[scope]? = some (some site) →
    (∀ parameter ∈ parameters, parameter.lexeme ≠ r.new) →
    List.Forall₂ (Value.Resembles texts r origins sites) arguments arguments' →
    Watched.Resembles texts r origins sites machine.current (fun _ _ _ _ => True)
      (Watch.steps.basic (Action.bindAll scope parameters arguments) here origins machine)
      (Action.bindAll scope (parameters.map (r.token (some site))) arguments' machine')
  | [], _, _, _, _, alike, _, _, _ => Watched.Resembles.done rfl rfl alike.stays trivial
  | parameter :: parameters, _, _, machine, machine', alike, labelled, names, argumentsAlike => by
      rw [List.forall_mem_cons] at names
      cases argumentsAlike with
      | nil => exact Watched.Resembles.done rfl rfl alike.stays trivial
      | cons value others =>
          have first := alike.with_store (alike.store.define labelled names.1 value)
          have rest := resembles_bindAll first labelled names.2 others
          exact rest

/-- Declaring a function on both sides: its origin is noted, and the other one has the renamed body. -/
lemma resembles_declare (clean : r.Clean texts)
    (alike : machine.Resembles texts r origins sites machine')
    (aligned : Aligned sites regions here machine.current) {name : Token} {parameters : List Token}
    {body : List Stmt}
    (stands : Stands texts regions here.place (.one (.function name parameters body))) :
    Watched.Resembles texts r origins sites machine.current
      (fun _ _ completion completion' => completion = .normal ∧ completion' = .normal)
      (Watch.steps.declaring name parameters
        (Stmt.boundAll ((regions.declare name).enter here.place parameters).frames body)
        here origins machine)
      (Steps.own.declaring name (parameters.map (r.token (some here.place)))
        (Stmt.boundAll (((regions.declare name).enter here.place parameters).renamed r).frames
          (Stmt.renamedAll r ((regions.declare name).enter here.place parameters) here.place 0 body))
        machine') := by
  intro _
  have longer : origins <+: origins ++ [here] := List.prefix_append _ _
  have origin : (origins ++ [here])[machine.events]? = some here := by
    rw [← alike.events, List.getElem?_concat_length]
  have notNew : name.lexeme ≠ r.new := by
    intro h
    exact clean.names stands (by simp [Stmt.names, h])
  have events : machine'.events = machine.events := by rw [alike.rest]
  set inside := (regions.declare name).enter here.place parameters with shape
  have function : (Value.function machine.events
        ⟨name, parameters, Stmt.boundAll inside.frames body, machine.current⟩).Resembles
      texts r (origins ++ [here]) sites (.function machine'.events ⟨name,
        parameters.map (r.token (some here.place)), Stmt.boundAll (inside.renamed r).frames
          (Stmt.renamedAll r inside here.place 0 body), machine'.current⟩) :=
    ⟨here, regions, body, origin, stands, rfl, by rw [events, alike.current_eq],
      aligned.display, aligned.labelled⟩
  have store := (alike.store.grow longer).define aligned.innermost notNew function
  have token : r.named regions.innermost? name.lexeme = name.lexeme :=
    congrArg Token.lexeme (clean.token_function stands)
  rw [token] at store
  refine .done ⟨longer, List.prefix_refl _, rfl, ?_, ?_, alike.natives, ?_⟩ ⟨rfl, rfl⟩
  · dsimp only
    rw [alike.rest]
  · show (origins ++ [here]).length = machine.events + 1
    rw [List.length_append, alike.events, List.length_singleton]
  · dsimp only
    rw [← alike.current_eq] at store ⊢
    exact store

/-! ## Steps that follow hops -/

/-- The scope that an occurrence leads to binds the new name exactly if the occurrence has it. -/
lemma Aligned.exists_scope (aligned : Aligned sites regions here machine.current)
    {assigned : Bool} {name : Token} {distance : Nat}
    (hops : regions.frames.hops? name.lexeme = some distance)
    (visit : Visit.Lexical texts ⟨⟨assigned, name, some distance⟩, here, machine⟩) :
    ∃ scope, machine.store.ancestor? machine.current distance = some scope
      ∧ sites[scope]? = some (regions.site? name.lexeme)
      ∧ (assigned = false → (machine.store.local? scope name.lexeme).isSome) := by
  obtain ⟨_, region, scope, _, _, _, _, finds, ancestor, _, read⟩ := visit distance rfl
  refine ⟨scope, ancestor, ?_, read⟩
  rw [aligned.labelled _ (List.mem_of_getElem? finds), Regions.site?, hops, Option.bind_some,
    ← aligned.display, List.getElem?_map, finds]
  rfl

/-- A step that makes a visit may use that the visit finds its scope. -/
lemma Watched.Resembles.visited {α α' : Type}
    {P : List Position → List (Option Place) → α → α' → Prop} {assigned : Bool} {name : Token}
    {hops : Option Nat} {step : Action α} {outcome : Outcome α'} {current : Nat}
    (resembles : Visit.Lexical texts ⟨⟨assigned, name, hops⟩, here, machine⟩ →
      Watched.Resembles texts r origins sites current P (Watch.steps.basic step here origins machine)
        outcome) :
    Watched.Resembles texts r origins sites current P
      (Watch.visiting assigned name hops step here origins machine) outcome := by
  intro visits
  exact resembles (visits _ List.mem_cons_self) fun _ visit => absurd visit List.not_mem_nil

lemma Renaming.token_none (name : Token) : r.token none name = name := by
  rw [Renaming.token, Renaming.named_none]

/-- A name that is found in no region is a global one. -/
lemma Regions.site?_eq_none {name : String} (found : regions.frames.hops? name = none) :
    regions.site? name = none := by rw [Regions.site?, found, Option.bind_none]

lemma resembles_look (alike : machine.Resembles texts r origins sites machine')
    (aligned : Aligned sites regions here machine.current) {name : Token}
    (notNew : name.lexeme ≠ r.new) :
    Watched.Resembles texts r origins sites machine.current (ResemblingValue texts r)
      (Watch.steps.look name (regions.frames.hops? name.lexeme) here origins machine)
      (Action.look (r.token (regions.site? name.lexeme) name) (regions.frames.hops? name.lexeme)
        machine') := by
  refine Watched.Resembles.visited fun visit => ?_
  cases hops : regions.frames.hops? name.lexeme with
  | none =>
      rw [Regions.site?_eq_none hops, Renaming.token_none]
      have values := alike.store.values alike.store.globals notNew
      rw [Renaming.named_none] at values
      cases valueAlike : machine.store.local? Machine.globals name.lexeme with
      | none =>
          rw [valueAlike] at values
          have valueAlike' := eq_none_of_rel values
          have look : Action.look name none machine
              = .failed (.runtime (.undefined name.lexeme) name.line) machine := by
            simp only [Action.look, Store.get?_globals, valueAlike]
          have look' : Action.look name none machine'
              = .failed (.runtime (.undefined name.lexeme) name.line) machine' := by
            simp only [Action.look, Store.get?_globals, valueAlike']
          exact Watched.Resembles.failed look look' alike.sink_eq
      | some value =>
          rw [valueAlike] at values
          obtain ⟨value', valueAlike', resembles⟩ := exists_of_rel values
          refine Watched.Resembles.done ?_ ?_ alike.stays resembles
          · simp only [Action.look, Store.get?_globals, valueAlike]
          · simp only [Action.look, Store.get?_globals, valueAlike']
  | some distance =>
      rw [hops] at visit
      obtain ⟨scope, ancestor, site, bound⟩ := aligned.exists_scope hops visit
      obtain ⟨value, valueAlike⟩ := Option.isSome_iff_exists.mp (bound rfl)
      have values := alike.store.values site notNew
      rw [valueAlike] at values
      obtain ⟨value', valueAlike', resembles⟩ := exists_of_rel values
      have ancestor' := alike.store.ancestor?_eq distance machine.current
      rw [ancestor, ← alike.current_eq] at ancestor'
      refine Watched.Resembles.done ?_ ?_ alike.stays resembles
      · simp only [Action.look, Store.getAt?, ancestor, Option.bind_some, valueAlike]
      · simp only [Action.look, Store.getAt?, ancestor', Option.bind_some, Renaming.token, valueAlike']

lemma resembles_assign (alike : machine.Resembles texts r origins sites machine')
    (aligned : Aligned sites regions here machine.current) {name : Token}
    (notNew : name.lexeme ≠ r.new) {value value' : Value}
    (valueAlike : value.Resembles texts r origins sites value') :
    Watched.Resembles texts r origins sites machine.current (ResemblingValue texts r)
      ((Watch.steps.assign name (regions.frames.hops? name.lexeme) value >>= fun _ => pure value)
        here origins machine)
      ((Action.assign (r.token (regions.site? name.lexeme) name) (regions.frames.hops? name.lexeme)
        value' >>= fun _ => pure value') machine') := by
  have step : Watched.Resembles texts r origins sites machine.current (fun _ _ _ _ => True)
      (Watch.steps.assign name (regions.frames.hops? name.lexeme) value here origins machine)
      (Action.assign (r.token (regions.site? name.lexeme) name) (regions.frames.hops? name.lexeme)
        value' machine') := by
    refine Watched.Resembles.visited fun visit => ?_
    cases hops : regions.frames.hops? name.lexeme with
    | none =>
        rw [Regions.site?_eq_none hops, Renaming.token_none]
        have values := alike.store.values alike.store.globals notNew
        rw [Renaming.named_none] at values
        cases kept : machine.store.local? Machine.globals name.lexeme with
        | none =>
            rw [kept] at values
            have kept' := eq_none_of_rel values
            have assign : Action.assign name none value machine
                = .failed (.runtime (.undefined name.lexeme) name.line) machine := by
              simp only [Action.assign, Store.holder?_globals, kept, Option.map_none]
            have assign' : Action.assign name none value' machine'
                = .failed (.runtime (.undefined name.lexeme) name.line) machine' := by
              simp only [Action.assign, Store.holder?_globals, kept', Option.map_none]
            exact Watched.Resembles.failed assign assign' alike.sink_eq
        | some old =>
            rw [kept] at values
            obtain ⟨older', kept', _⟩ := exists_of_rel values
            refine resembles_store alike alike.store.globals notNew valueAlike ?_ ?_
            · simp only [Action.assign, Store.holder?_globals, kept, Option.map_some]
            · simp only [Action.assign, Store.holder?_globals, kept', Option.map_some,
                Renaming.named_none]
    | some distance =>
        rw [hops] at visit
        obtain ⟨scope, ancestor, site, _⟩ := aligned.exists_scope hops visit
        have ancestor' := alike.store.ancestor?_eq distance machine.current
        rw [ancestor, ← alike.current_eq] at ancestor'
        refine resembles_store alike site notNew valueAlike ?_ ?_
        · simp only [Action.assign, ancestor]
        · simp only [Action.assign, ancestor', Renaming.token]
  refine step.bind ?_
  intro _ _ origins' sites' after after' along _
  exact Watched.Resembles.pure along.alike (valueAlike.grow along.origins along.sites)

end LoxLang
