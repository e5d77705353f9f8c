import LoxLang.Proofs.Evaluation.Lexical
import LoxLang.Proofs.Evaluation.SideBySide

/-!
# Every step keeps the scopes in place

* `Follows` — what holds between a machine before and after a step that was not used up.
* `Watched.Keeps` — a watched step makes only visits that find their scope, keeps the invariant, and
  can explain a fault; `Keeps.bind` composes steps.
* `Ready` — a step may begin: the scopes fit the regions around the place.

The last section has one lemma for each step that touches the machine.
-/

namespace LoxLang

variable {texts : Nat → List Stmt}

/-- The state after a step: the same scope is current, and the invariant still holds. -/
structure Follows (texts : Nat → List Stmt) (origins : List Position) (before after : Machine) :
    Prop where
  grows : before.store.Grows after.store
  current : after.current = before.current
  placed : after.Placed texts origins

/-- What is left of a watched step: the scopes are as they were, all visits found theirs, and a value
has a property. -/
def Watched.Keeps {α : Type} (texts : Nat → List Stmt) (origins : List Position) (machine : Machine)
    (Q : List Position → Store Value → α → Prop) (watched : Watched α) : Prop :=
  origins <+: watched.origins ∧ (∀ visit ∈ watched.visits, visit.Lexical texts) ∧
    match watched.outcome with
    | .done value after =>
      Follows texts watched.origins machine after ∧ Q watched.origins after.store value
    | .failed fault after =>
      Follows texts watched.origins machine after ∧ fault.Explained watched.visits
    | .exhausted => True

namespace Watched.Keeps

variable {α β : Type} {here : Position} {origins : List Position} {machine : Machine}
  {P : List Position → Store Value → α → Prop} {Q : List Position → Store Value → β → Prop}

lemma pure (placed : machine.Placed texts origins) {value : α} (holds : P origins machine.store value) :
    Watched.Keeps texts origins machine P ((Pure.pure value : Watch α) here origins machine) :=
  ⟨List.prefix_refl _, fun _ visit => absurd visit List.not_mem_nil,
    ⟨Store.Grows.refl _, rfl, placed⟩, holds⟩

lemma exhausted : Watched.Keeps texts origins machine P
    ((Watch.steps.basic Action.exhausted : Watch α) here origins machine) :=
  ⟨List.prefix_refl _, fun _ visit => absurd visit List.not_mem_nil, trivial⟩

lemma bind {first : Watch α} {second : α → Watch β}
    (firstKeeps : Watched.Keeps texts origins machine P (first here origins machine))
    (secondKeeps : ∀ (value : α) (origins' : List Position) (after : Machine), origins <+: origins' →
      Follows texts origins' machine after → P origins' after.store value →
      Watched.Keeps texts origins' after Q (second value here origins' after)) :
    Watched.Keeps texts origins machine Q ((first >>= second) here origins machine) := by
  show Watched.Keeps texts origins machine Q (Watch.bind first second here origins machine)
  unfold Watch.bind
  rcases step : first here origins machine with ⟨outcome, origins', visits⟩
  rw [step] at firstKeeps
  obtain ⟨longer, lexical', ends⟩ := firstKeeps
  cases outcome with
  | done value after =>
      obtain ⟨follows, holds⟩ := ends
      obtain ⟨longer', lexical'', ends'⟩ := secondKeeps value origins' after longer follows holds
      refine ⟨longer.trans longer', ?_, ?_⟩
      · intro visit lexical
        rcases List.mem_append.mp lexical with h | h
        · exact lexical' visit h
        · exact lexical'' visit h
      · have trans : ∀ origins'' last, Follows texts origins'' after last →
            Follows texts origins'' machine last := fun origins'' last later =>
          ⟨follows.grows.trans later.grows, later.current.trans follows.current, later.placed⟩
        revert ends'
        dsimp only
        rcases second value here origins' after with ⟨outcome', origins'', visits'⟩
        cases outcome' with
        | done value' last => exact fun h => ⟨trans _ _ h.1, h.2⟩
        | failed fault last =>
            intro h
            refine ⟨trans _ _ h.1, fun name line other => ?_⟩
            obtain ⟨visit, later, explains⟩ := h.2 name line other
            exact ⟨visit, by rw [List.getLast?_append, later, Option.some_or], explains⟩
        | exhausted => exact fun h => h
  | failed fault after => exact ⟨longer, lexical', ends⟩
  | exhausted => exact ⟨longer, lexical', trivial⟩

/-- A step of which nothing is noted, when it succeeds. -/
lemma done {step : Action α} {value : α} {after : Machine} (stepped : step machine = .done value after)
    (follows : Follows texts origins machine after) (holds : P origins after.store value) :
    Watched.Keeps texts origins machine P (Watch.steps.basic step here origins machine) := by
  refine ⟨List.prefix_refl _, fun _ visit => absurd visit List.not_mem_nil, ?_⟩
  simp only [Watch.steps_basic, Watch.lift, stepped]
  exact ⟨follows, holds⟩

/-- A step of which nothing is noted, when it fails, but not for a name. -/
lemma failed {step : Action α} {fault : Fault} {after : Machine}
    (stepped : step machine = .failed fault after) (follows : Follows texts origins machine after)
    (other : ∀ name line, fault ≠ .runtime (.undefined name) line) :
    Watched.Keeps texts origins machine P (Watch.steps.basic step here origins machine) := by
  refine ⟨List.prefix_refl _, fun _ visit => absurd visit List.not_mem_nil, ?_⟩
  simp only [Watch.steps_basic, Watch.lift, stepped]
  exact ⟨follows, fun name line h => absurd h (other name line)⟩

lemma within {step : Watch α} {scope : Nat}
    (keeps : Watched.Keeps texts origins { machine with current := scope } P
      (step (here.enter scope) origins { machine with current := scope })) :
    Watched.Keeps texts origins machine P (Watch.steps.within scope step here origins machine) := by
  obtain ⟨longer, lexical, ends⟩ := keeps
  refine ⟨longer, lexical, ?_⟩
  simp only [Watch.steps_within, Watch.within, Action.within]
  revert ends
  rcases step (here.enter scope) origins { machine with current := scope }
    with ⟨outcome, origins', visits⟩
  have back : ∀ after, Follows texts origins' { machine with current := scope } after →
      Follows texts origins' machine { after with current := machine.current } :=
    fun after answers => ⟨answers.grows, rfl, ⟨answers.placed.events, answers.placed.globals,
      answers.placed.natives, answers.placed.values⟩⟩
  cases outcome with
  | done value after => exact fun keeps => ⟨back after keeps.1, keeps.2⟩
  | failed fault after => exact fun keeps => ⟨back after keeps.1, keeps.2⟩
  | exhausted => exact fun keeps => keeps

lemma weaken {P' : List Position → Store Value → α → Prop} {watched : Watched α}
    (keeps : Watched.Keeps texts origins machine P watched)
    (imp : ∀ origins' after value, Follows texts origins' machine after →
      P origins' after.store value → P' origins' after.store value) :
    Watched.Keeps texts origins machine P' watched := by
  obtain ⟨longer, lexical, ends⟩ := keeps
  refine ⟨longer, lexical, ?_⟩
  rcases watched with ⟨outcome, origins', visits⟩
  cases outcome with
  | done value after => exact ⟨ends.1, imp _ _ _ ends.1 ends.2⟩
  | failed fault after => exact ends
  | exhausted => trivial

lemma of_done {watched : Watched α} {value : α} {after : Machine}
    (keeps : Watched.Keeps texts origins machine P watched)
    (done : watched.outcome = .done value after) :
    Follows texts watched.origins machine after ∧ P watched.origins after.store value := by
  have outcome := keeps.2.2
  rw [done] at outcome
  exact outcome

lemma of_failed {watched : Watched α} {fault : Fault} {after : Machine}
    (keeps : Watched.Keeps texts origins machine P watched)
    (failed : watched.outcome = .failed fault after) :
    Follows texts watched.origins machine after ∧ fault.Explained watched.visits := by
  have outcome := keeps.2.2
  rw [failed] at outcome
  exact outcome

end Watched.Keeps

/-! ## Steps that touch the machine -/

/-- A step may begin at a position: the scopes fit the regions around it. -/
structure Ready (texts : Nat → List Stmt) (regions : Regions) (here : Position)
    (origins : List Position) (machine : Machine) : Prop where
  fits : Fits machine.store regions here.display machine.current
  placed : machine.Placed texts origins

namespace Ready

variable {regions : Regions} {here : Position} {origins origins' : List Position}
  {machine after : Machine}

lemma next (ready : Ready texts regions here origins machine)
    (follows : Follows texts origins' machine after) :
    Ready texts regions here origins' after :=
  ⟨by rw [follows.current]; exact ready.fits.grow follows.grows, follows.placed⟩

end Ready

namespace Machine.Placed

variable {origins : List Position} {machine : Machine}

/-- Changing nothing but the sink and the readings keeps the invariant. -/
lemma follows_of_eq (placed : machine.Placed texts origins) {after : Machine}
    (store : after.store = machine.store) (current : after.current = machine.current)
    (events : after.events = machine.events) (natives : after.natives = machine.natives) :
    Follows texts origins machine after := by
  refine ⟨by rw [store]; exact Store.Grows.refl _, current, ?_⟩
  refine ⟨by rw [events]; exact placed.events, by rw [store]; exact placed.globals,
    by rw [natives]; exact placed.natives, ?_⟩
  rw [store]
  exact placed.values

lemma follows (placed : machine.Placed texts origins) : Follows texts origins machine machine :=
  placed.follows_of_eq rfl rfl rfl rfl

/-- Binding a name to a placed value keeps the invariant. -/
lemma define (placed : machine.Placed texts origins) (scope : Nat) (name : String) {value : Value}
    (valuePlaced : value.Placed texts origins machine.store) :
    Follows texts origins machine { machine with store := machine.store.define scope name value } := by
  have grows := Store.Grows.define machine.store scope name value
  refine ⟨grows, rfl, placed.events, by rw [Store.size_define]; exact placed.globals,
    placed.natives, ?_⟩
  intro i other found held
  rcases Store.local?_define_cases held with rfl | old
  · exact valuePlaced.grow (List.prefix_refl _) grows
  · exact (placed.values old).grow (List.prefix_refl _) grows

/-- Going into another scope keeps the invariant. -/
lemma enter (placed : machine.Placed texts origins) (scope : Nat) :
    Machine.Placed texts origins { machine with current := scope } :=
  ⟨placed.events, placed.globals, placed.natives, placed.values⟩

/-- Adding a scope keeps the invariant. -/
lemma child (placed : machine.Placed texts origins) (outer : Nat) :
    Follows texts origins machine { machine with store := (machine.store.child outer).2 } := by
  have grows := Store.Grows.child machine.store outer
  refine ⟨grows, rfl, placed.events, by rw [Store.size_child]; omega, placed.natives, ?_⟩
  intro i name value valuePlaced
  rw [Store.local?_child] at valuePlaced
  exact (placed.values valuePlaced).grow (List.prefix_refl _) grows

end Machine.Placed

lemma Constant.placed (constant : Constant) (origins : List Position) (store : Store Value) :
    constant.value.Placed texts origins store := by
  cases constant <;> exact trivial

section Steps

variable {regions : Regions} {here : Position} {origins : List Position} {machine : Machine}

/-- What is said of a value: if it is a function, it is placed. -/
abbrev PlacedValue (texts : Nat → List Stmt) (origins : List Position) (store : Store Value)
    (value : Value) : Prop := value.Placed texts origins store

lemma keeps_fail {α : Type} {P : List Position → Store Value → α → Prop} {error : RuntimeError}
    {place : Token} (placed : machine.Placed texts origins)
    (other : ∀ name, error ≠ .undefined name) :
    Watched.Keeps texts origins machine P
      ((Watch.steps.basic (Action.fail error place) : Watch α) here origins machine) := by
  refine Watched.Keeps.failed rfl placed.follows ?_
  intro name line h
  exact other name (by cases h; rfl)

lemma keeps_ofExcept {place : Token} {result : Except RuntimeError Value}
    (placed : machine.Placed texts origins) (plain : OperatorResult result) :
    Watched.Keeps texts origins machine (PlacedValue texts)
      (Watch.steps.basic (Action.ofExcept place result) here origins machine) := by
  cases result with
  | ok value => exact Watched.Keeps.done rfl placed.follows (.of_ne_function plain)
  | error error => exact keeps_fail placed plain

lemma keeps_print (placed : machine.Placed texts origins) (text : String) :
    Watched.Keeps texts origins machine (fun _ _ _ => True)
      (Watch.steps.print text here origins machine) := by
  rcases write : machine.sink.write (text ++ "\n").toUTF8 with ⟨refusal, sink⟩
  cases refusal with
  | none =>
      have print : Action.print text machine = .done () { machine with sink } := by
        simp only [Action.print, write]
      exact Watched.Keeps.done print (placed.follows_of_eq rfl rfl rfl rfl) trivial
  | some error =>
      have print : Action.print text machine
          = .failed (.output error) { machine with sink } := by
        simp only [Action.print, write]
      exact Watched.Keeps.failed print (placed.follows_of_eq rfl rfl rfl rfl)
        (fun _ _ h => by cases h)

lemma keeps_callNative (placed : machine.Placed texts origins) (index : Nat) (paren : Token)
    {arguments : List Value}
    (values : ∀ value ∈ arguments, value.Placed texts origins machine.store) :
    Watched.Keeps texts origins machine (PlacedValue texts)
      (Watch.steps.basic (Action.callNative index paren arguments) here origins machine) := by
  cases known : machine.natives[index]? with
  | none =>
      have call : Action.callNative index paren arguments machine
          = .failed (.runtime .notCallable paren.line) machine := by
        simp only [Action.callNative, known]
      exact Watched.Keeps.failed call placed.follows (fun _ _ h => by cases h)
  | some native =>
      have modest := placed.natives native (List.mem_of_getElem? known)
      cases native with
      | clock =>
          have call : Action.callNative index paren arguments machine
              = .done (.number (machine.clock machine.readings))
                { machine with readings := machine.readings + 1 } := by
            simp only [Action.callNative, known, Action.readClock]
          exact Watched.Keeps.done call (placed.follows_of_eq rfl rfl rfl rfl) trivial
      | host arity apply =>
          cases applied : apply arguments with
          | ok value =>
              have call : Action.callNative index paren arguments machine
                  = .done value machine := by
                simp only [Action.callNative, known, applied]
              refine Watched.Keeps.done call placed.follows ?_
              rcases modest arguments value applied with given | none_
              · exact values value given
              · exact .of_ne_function none_
          | error text =>
              have call : Action.callNative index paren arguments machine
                  = .failed (.runtime (.host text) paren.line) machine := by
                simp only [Action.callNative, known, applied]
              exact Watched.Keeps.failed call placed.follows (fun _ _ h => by cases h)

/-- A visit that finds its scope, and the step it was made for. -/
lemma keeps_visited {α : Type} {P : List Position → Store Value → α → Prop} {watched : Watched α}
    {visit : Visit} (sameOrigins : watched.origins = origins) (lexical' : watched.visits = [visit])
    (lexical : visit.Lexical texts)
    (ends : match watched.outcome with
      | .done value after => Follows texts origins machine after ∧ P origins after.store value
      | .failed fault after => Follows texts origins machine after ∧ fault.Explained [visit]
      | .exhausted => True) :
    Watched.Keeps texts origins machine P watched := by
  obtain ⟨outcome, origins', visits⟩ := watched
  subst sameOrigins lexical'
  refine ⟨List.prefix_refl _, ?_, ends⟩
  intro found h
  rw [List.mem_singleton.mp h]
  exact lexical

lemma explained_self (assigned : Bool) (name : Token) :
    Fault.Explained [⟨⟨assigned, name, none⟩, here, machine⟩]
      (.runtime (.undefined name.lexeme) name.line) := by
  intro other line h
  cases h
  exact ⟨_, rfl, rfl, rfl, rfl⟩

lemma keeps_look (ready : Ready texts regions here origins machine) (name : Token)
    (hops : Option Nat) (settled : Settled texts regions here.place ⟨false, name, hops⟩) :
    Watched.Keeps texts origins machine (PlacedValue texts)
      (Watch.steps.look name hops here origins machine) := by
  have visit := settled.lexical ready.fits
  refine keeps_visited rfl rfl visit ?_
  cases hops with
  | some distance =>
      obtain ⟨_, _, scope, _, _, _, _, _, ancestor, _, bound⟩ := visit distance rfl
      obtain ⟨value, valuePlaced⟩ := Option.isSome_iff_exists.mp (bound rfl)
      have look : Action.look name (some distance) machine = .done value machine := by
        simp only [Action.look, Store.getAt?]
        rw [ancestor, Option.bind_some, valuePlaced]
      simp only [Watch.steps_look, Watch.visiting, look]
      exact ⟨ready.placed.follows, ready.placed.values valuePlaced⟩
  | none =>
      simp only [Watch.steps_look, Watch.visiting, Action.look]
      cases get : machine.store.get? Machine.globals name.lexeme with
      | some value =>
          obtain ⟨i, valuePlaced⟩ := Store.exists_local?_of_get? get
          exact ⟨ready.placed.follows, ready.placed.values valuePlaced⟩
      | none => exact ⟨ready.placed.follows, explained_self false name⟩

lemma keeps_assign (ready : Ready texts regions here origins machine) (name : Token)
    (hops : Option Nat) (settled : Settled texts regions here.place ⟨true, name, hops⟩)
    {value : Value} (valuePlaced : value.Placed texts origins machine.store) :
    Watched.Keeps texts origins machine (PlacedValue texts)
      ((Watch.steps.assign name hops value >>= fun _ => pure value)
        here origins machine) := by
  have visit := settled.lexical ready.fits
  have done : ∀ scope, Action.assign name hops value machine
        = .done () { machine with store := machine.store.define scope name.lexeme value } →
      Watched.Keeps texts origins machine (PlacedValue texts)
        ((Watch.steps.assign name hops value >>= fun _ => pure value)
          here origins machine) := by
    intro scope assign
    have follows := ready.placed.define scope name.lexeme valuePlaced
    simp only [Bind.bind, Watch.bind, Watch.steps_assign, Watch.visiting, assign]
    exact keeps_visited rfl rfl visit ⟨follows, valuePlaced.grow (List.prefix_refl _) follows.grows⟩
  cases hops with
  | some distance =>
      obtain ⟨_, _, scope, _, _, _, _, _, ancestor, _, _⟩ := visit distance rfl
      refine done scope ?_
      simp only [Action.assign]
      rw [ancestor]
  | none =>
      cases holder : machine.store.holder? Machine.globals name.lexeme with
      | some scope => exact done scope (by simp only [Action.assign, holder])
      | none =>
          have assign : Action.assign name none value machine
              = .failed (.runtime (.undefined name.lexeme) name.line) machine := by
            simp only [Action.assign, holder]
          simp only [Bind.bind, Watch.bind, Watch.steps_assign, Watch.visiting, assign]
          exact keeps_visited rfl rfl visit ⟨ready.placed.follows, explained_self true name⟩

lemma keeps_define (ready : Ready texts regions here origins machine) (name : Token) {value : Value}
    (valuePlaced : value.Placed texts origins machine.store) :
    Watched.Keeps texts origins machine
      (fun _ store _ => Fits store (regions.declare name) here.display machine.current)
      (Watch.steps.basic (Action.define name value) here origins machine) :=
  Watched.Keeps.done rfl (ready.placed.define machine.current name.lexeme valuePlaced)
    (ready.fits.declare name value)

/-- Declaring a function makes a placed one: its origin is noted under its number, and its scope fits
the regions in which it is declared, its own name among them. -/
lemma keeps_declare (ready : Ready texts regions here origins machine) {name : Token}
    {parameters : List Token} {body : List Stmt}
    (stands : Stands texts regions here.place (.one (.function name parameters body))) :
    Watched.Keeps texts origins machine
      (fun origins store completion => completion.Placed texts origins store
        ∧ (completion = .normal →
            Fits store (regions.declare name) here.display machine.current))
      (Watch.steps.declaring name parameters
        (Stmt.boundAll ((regions.frames.declare name).enter parameters) body) here origins machine) := by
  have longer : origins <+: origins ++ [here] := List.prefix_append _ _
  set made := Stmt.boundAll ((regions.frames.declare name).enter parameters) body with shape
  set function := Value.function machine.events ⟨name, parameters, made, machine.current⟩
    with shape'
  have grows := Store.Grows.define machine.store machine.current name.lexeme function
  have fits := ready.fits.declare name function
  have origin : (origins ++ [here])[machine.events]? = some here := by
    rw [← ready.placed.events]
    simp
  have placed : function.Placed texts (origins ++ [here])
      (machine.store.define machine.current name.lexeme function) := by
    refine ⟨here, regions, body, origin, stands, ?_, fits⟩
    rw [Regions.frames_enter, Regions.frames_declare]
  refine ⟨longer, fun _ visit => absurd visit List.not_mem_nil, ⟨grows, rfl, ?_⟩, trivial,
    fun _ => fits⟩
  refine ⟨?_, by
      show 0 < (machine.store.define machine.current name.lexeme function).scopes.size
      rw [Store.size_define]
      exact ready.placed.globals, ready.placed.natives, ?_⟩
  · show (origins ++ [here]).length = machine.events + 1
    rw [List.length_append, ready.placed.events]
    rfl
  · intro i other found held
    rcases Store.local?_define_cases held with rfl | old
    · exact placed
    · exact (ready.placed.values old).grow longer grows

end Steps

end LoxLang
