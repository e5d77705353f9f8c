import Mathlib
import LoxLang.Proofs.ForLoop.World

/-!
# Steps of two runs side by side

A step of the direct run and one of the other run that begin with the same variables end with the same
variables: both yield corresponding values, or both stop with the same fault, or both give up.

* `Follows` — two steps that stay side by side, from one world on and in one layout.
* `Follows.bind`, `Follows.within`, `Follows.padded` — one step after another, a step in another scope,
  and a step in a scope that only the other run has.
* `Follows.look`, `Follows.assign`, `Follows.define` and the others — the steps that touch the machine.
-/

namespace LoxLang

namespace Looped

variable {α β γ δ : Type}

/-- Two steps end side by side: in a later world, and in the scopes in which they began. -/
inductive Ends (w : World) (R : World → α → β → Prop) (machine machine' : Machine) :
    Ending α → Outcome β → Prop where
  | done {later : World} {value : α} {value' : β} {after after' : Machine} :
      w.Grows later → later.Mirror after after' → after.current = machine.current →
      after'.current = machine'.current → R later value value' →
      Ends w R machine machine' ⟨.done value after, later.bodies⟩ (.done value' after')
  | failed {later : World} {fault : Fault} {after after' : Machine} :
      w.Grows later → later.Mirror after after' → after.current = machine.current →
      after'.current = machine'.current →
      Ends w R machine machine' ⟨.failed fault after, later.bodies⟩ (.failed fault after')
  | exhausted {bodies : Bodies} : Ends w R machine machine' ⟨.exhausted, bodies⟩ .exhausted

/-- **Two steps stay side by side**, in every world that the first one grows into. -/
def Follows (w : World) (layout : Layout) (R : World → α → β → Prop) (step : Direct α)
    (step' : Action β) : Prop :=
  ∀ here : World, w.Grows here → ∀ machine machine' : Machine, here.Mirror machine machine' →
    here.Stands layout machine.current machine'.current →
    Ends here R machine machine' (step here.bodies machine) (step' machine')

variable {w : World} {layout : Layout} {R : World → α → β → Prop} {S : World → γ → δ → Prop}

/-! ## Putting steps together -/

lemma Ends.trans {first second : World} {machine machine' after after' : Machine} {ending : Ending α}
    {outcome : Outcome β} (ends : Ends second R after after' ending outcome)
    (grows : first.Grows second) (current : after.current = machine.current)
    (current' : after'.current = machine'.current) :
    Ends first R machine machine' ending outcome := by
  cases ends with
  | done more mirror same same' related =>
      exact .done (grows.trans more) mirror (same.trans current) (same'.trans current') related
  | failed more mirror same same' =>
      exact .failed (grows.trans more) mirror (same.trans current) (same'.trans current')
  | exhausted => exact .exhausted

namespace Follows

lemma pure {value : α} {value' : β} (related : ∀ later, w.Grows later → R later value value') :
    Follows w layout R (Pure.pure value) (Pure.pure value') := fun here grows _ _ mirror _ =>
  .done (.refl here) mirror rfl rfl (related here grows)

lemma exhausted : Follows w layout R (Direct.lift Action.exhausted) Action.exhausted :=
  fun _ _ _ _ _ _ => .exhausted

lemma bind {step : Direct α} {step' : Action β} {next : α → Direct γ} {next' : β → Action δ}
    (first : Follows w layout R step step')
    (second : ∀ later, w.Grows later → ∀ value value', R later value value' →
      Follows later layout S (next value) (next' value')) :
    Follows w layout S (step >>= next) (step' >>= next') := by
  intro here grows machine machine' mirror stands
  show Ends here S machine machine' (Direct.bind step next here.bodies machine)
    (Action.bind step' next' machine')
  unfold Direct.bind Action.bind
  have ends := first here grows machine machine' mirror stands
  generalize step here.bodies machine = ending at ends
  generalize step' machine' = outcome at ends
  cases ends with
  | @done later value value' after after' more mirrored same same' related =>
      have stands' : later.Stands layout after.current after'.current := by
        rw [same, same']
        exact stands.mono more
      exact (second later (grows.trans more) value value' related later (.refl later) after after'
        mirrored stands').trans more same same'
  | failed more mirrored same same' => exact .failed more mirrored same same'
  | exhausted => exact .exhausted

lemma fail (error : RuntimeError) (token : Token) :
    Follows w layout R (Direct.lift (Action.fail error token)) (Action.fail error token) :=
  fun here _ _ _ mirror _ => .failed (.refl here) mirror rfl rfl

/-- An operator gave the same to both. -/
lemma ofResult (token : Token) {result : Except RuntimeError Value}
    (plain : OperatorResult result) :
    Follows w layout World.Mirrors (Direct.lift (Action.ofExcept token result))
      (Action.ofExcept token result) := by
  cases result with
  | error error => exact fail error token
  | ok value => exact pure fun later _ => World.mirrors_self plain

/-! ## Scopes -/

lemma current : Follows w layout (fun later i i' => later.Stands layout i i')
    (Direct.lift Action.current) Action.current := fun here _ _ _ mirror stands =>
  .done (.refl here) mirror rfl rfl stands

/-- A scope is made on both sides. -/
lemma openScope {outer outer' : Nat} (stands : w.Stands layout outer outer') {around : Layout} :
    Follows w around (fun later i i' => later.Stands (0 :: layout) i i')
      (Direct.lift (Action.openScope outer)) (Action.openScope outer') := by
  intro here grows machine machine' mirror _
  have outside := stands.mono grows
  have inside := World.stands_enter outside
  rw [← mirror.size, ← mirror.size'] at inside
  have ends : Ends here (fun later i i' => later.Stands (0 :: layout) i i') machine machine'
      ⟨.done _ _, (here.enter outer outer').bodies⟩ (.done _ _) :=
    .done (here.grows_enter outer outer') (mirror.enter outside) rfl rfl inside
  exact ends

/-- Both do a step in scopes that correspond. -/
lemma within {inside : Layout} {scope scope' : Nat} {step : Direct α} {step' : Action β}
    (inner : Follows w inside R step step') (stands : w.Stands inside scope scope') :
    Follows w layout R (Direct.within scope step) (Action.within scope' step') := by
  intro here grows machine machine' mirror _
  have ends := inner here grows _ _ (mirror.current scope scope') (stands.mono grows)
  unfold Direct.within Action.within
  generalize step here.bodies { machine with current := scope } = ending at ends
  generalize step' { machine' with current := scope' } = outcome at ends
  cases ends with
  | done more mirrored _ _ related =>
      exact .done more (mirrored.current machine.current machine'.current) rfl rfl related
  | failed more mirrored _ _ =>
      exact .failed more (mirrored.current machine.current machine'.current) rfl rfl
  | exhausted => exact .exhausted

/-- The other run does its step in a scope of its own. -/
lemma padded {step : Direct α} {step' : Action β} (inner : Follows w layout.deepen R step step') :
    Follows w layout R step (do
      let scope ← Action.openScope (← Action.current)
      Action.within scope step') := by
  intro here grows machine machine' mirror stands
  let inside : Machine := { machine' with
    store := (machine'.store.child machine'.current).2, current := machine'.store.scopes.size }
  have mirrored : (here.pad machine'.current).Mirror machine inside :=
    (mirror.pad stands).current machine.current machine'.store.scopes.size
  have deeper := World.stands_pad stands
  rw [← mirror.size'] at deeper
  have more := here.grows_pad machine'.current
  have ends : Ends (here.pad machine'.current) R machine inside (step here.bodies machine)
      (step' inside) := inner _ (grows.trans more) machine inside mirrored deeper
  show Ends here R machine machine' (step here.bodies machine)
    (Action.within machine'.store.scopes.size step'
      { machine' with store := (machine'.store.child machine'.current).2 })
  unfold Action.within
  generalize step here.bodies machine = ending at ends
  generalize step' inside = outcome at ends
  cases ends with
  | done further mirrored same _ related =>
      exact .done (more.trans further) (mirrored.current _ machine'.current) same rfl related
  | failed further mirrored same _ =>
      exact .failed (more.trans further) (mirrored.current _ machine'.current) same rfl
  | exhausted => exact .exhausted

/-! ## Names -/

/-- Both find the same value, or none. -/
lemma look (name : Token) (hops : Option Nat) :
    Follows w layout World.Mirrors (Direct.lift (Action.look name hops))
      (Action.look name (hops.map layout.across)) := by
  intro here _ machine machine' mirror stands
  cases hops with
  | none =>
      have found := mirror.values _ _ here.place_globals name.lexeme
      simp only [Direct.lift, Action.look, Option.map_none, Store.get?_globals]
      generalize machine.store.local? Machine.globals name.lexeme = value at found
      generalize machine'.store.local? Machine.globals name.lexeme = value' at found
      cases found with
      | none => exact .failed (.refl here) mirror rfl rfl
      | some same => exact .done (.refl here) mirror rfl rfl same
  | some distance =>
      have found := stands.getAt mirror distance name.lexeme
      simp only [Direct.lift, Action.look, Option.map_some]
      generalize machine.store.getAt? machine.current distance name.lexeme = value at found
      generalize machine'.store.getAt? machine'.current _ name.lexeme = value' at found
      cases found with
      | none => exact .failed (.refl here) mirror rfl rfl
      | some same => exact .done (.refl here) mirror rfl rfl same

/-- Both give the variable that the hops lead to a new value, or find none. -/
lemma assign (name : Token) (hops : Option Nat) {value value' : Value}
    (same : w.Mirrors value value') :
    Follows w layout (fun _ _ _ => True) (Direct.lift (Action.assign name hops value))
      (Action.assign name (hops.map layout.across) value') := by
  intro here grows machine machine' mirror stands
  have same := same.mono grows
  cases hops with
  | none =>
      have found := mirror.values _ _ here.place_globals name.lexeme
      simp only [Direct.lift, Action.assign, Option.map_none, Store.holder?_globals]
      generalize machine.store.local? Machine.globals name.lexeme = old at found
      generalize machine'.store.local? Machine.globals name.lexeme = old' at found
      cases found with
      | none => exact .failed (.refl here) mirror rfl rfl
      | some _ =>
          exact .done (.refl here) (mirror.define here.place_globals name.lexeme same) rfl rfl trivial
  | some distance =>
      have found := stands.ancestor mirror distance
      simp only [Direct.lift, Action.assign, Option.map_some]
      generalize machine.store.ancestor? machine.current distance = scope at found
      generalize machine'.store.ancestor? machine'.current _ = scope' at found
      cases found with
      | none => exact .failed (.refl here) mirror rfl rfl
      | some place => exact .done (.refl here) (mirror.define place name.lexeme same) rfl rfl trivial

/-- Names are bound in scopes that are no rounds, so in scopes that correspond. -/
lemma define (name : Token) {value value' : Value} (same : w.Mirrors value value') :
    Follows w (0 :: layout) (fun _ _ _ => True) (Direct.lift (Action.define name value))
      (Action.define name value') := fun here grows _ _ mirror stands =>
  .done (.refl here) (mirror.define stands.here name.lexeme (same.mono grows)) rfl rfl trivial

/-- Both declare a function, each with its own body. -/
lemma declare (name : Token) (parameters : List Token) (body : List Declaration) :
    Follows w (0 :: layout) (fun _ _ _ => True) (Direct.declare name parameters body)
      (Action.declare name parameters (Declaration.laidAll (0 :: 0 :: layout) body)) := by
  intro here _ machine machine' mirror stands
  have later := here.grows_declare body
  have function : (here.declare body).Mirrors
      (.function machine.events ⟨name, parameters, [], machine.current⟩)
      (.function machine'.events
        ⟨name, parameters, Declaration.laidAll (0 :: 0 :: layout) body, machine'.current⟩) := by
    rw [mirror.events']
    refine .function rfl rfl (stands.mono later) ?_ rfl
    rw [mirror.events]
    exact List.getElem?_concat_length
  have mirrored := (mirror.declared body).define stands.here name.lexeme function
  have ends : Ends here (fun _ _ _ => True) machine machine'
      ⟨.done () _, (here.declare body).bodies⟩ (.done () _) := .done later mirrored rfl rfl trivial
  exact ends

/-- Both bind the parameters, in scopes that correspond. -/
lemma bindAll {inside : Layout} {scope scope' : Nat} (stands : w.Stands (0 :: inside) scope scope')
    (parameters : List Token) {arguments arguments' : List Value}
    (same : List.Forall₂ w.Mirrors arguments arguments') :
    Follows w layout (fun _ _ _ => True) (Direct.lift (Action.bindAll scope parameters arguments))
      (Action.bindAll scope' parameters arguments') := by
  induction parameters generalizing arguments arguments' with
  | nil => exact pure fun _ _ => trivial
  | cons parameter others ih =>
      cases same with
      | nil => exact pure fun _ _ => trivial
      | cons first rest =>
          intro here grows machine machine' mirror outside
          have bound :=
            mirror.define (stands.mono grows).here parameter.lexeme (first.mono grows)
          have ends := ih rest here grows _ _ bound outside
          exact ends.trans (.refl here) rfl rfl

/-! ## The world outside -/

lemma print (text : String) : Follows w layout (fun _ _ _ => True)
    (Direct.lift (Action.print text)) (Action.print text) := by
  intro here _ machine machine' mirror _
  simp only [Direct.lift, Action.print, mirror.sink]
  cases machine.sink.write (text ++ "\n").toUTF8 with
  | mk refused sink =>
      cases refused with
      | none => exact .done (.refl here) (mirror.withSink sink) rfl rfl trivial
      | some error => exact .failed (.refl here) (mirror.withSink sink) rfl rfl

/-- The host has nothing but the clock, which shows the same to both. -/
lemma callNative (index : Nat) (paren : Token) (arguments arguments' : List Value) :
    Follows w layout World.Mirrors (Direct.lift (Action.callNative index paren arguments))
      (Action.callNative index paren arguments') := by
  intro here _ machine machine' mirror _
  simp only [Direct.lift, Action.callNative, mirror.natives]
  cases held : machine.natives[index]? with
  | none => exact .failed (.refl here) mirror rfl rfl
  | some native =>
      obtain rfl := mirror.unhosted native (List.mem_of_getElem? held)
      refine .done (.refl here) mirror.read rfl rfl ?_
      rw [mirror.clock, mirror.readings]
      exact .number _

end Follows

end Looped

end LoxLang
