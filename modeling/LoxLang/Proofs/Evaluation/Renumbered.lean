import Mathlib
import LoxLang.Evaluation.Run
import LoxLang.Proofs.Evaluation.Revised
import LoxLang.Proofs.Evaluation.SideBySide
import LoxLang.Proofs.Store.Growth

/-!
# Declaration events in another order

A function is told from others by the number of the declaration event that made it, and no step asks
for more than whether two such numbers are the same.  The order of the names in a scope is not asked for
at all.  A run may therefore begin with the numbers of past events exchanged and with names in another
order: it makes the same steps, as long as the numbers of events to come stay as they are.

* `Value.renumbered` — a value with the number of its event exchanged.
* `Store.Renumbered`, `Machine.Renumbered` — a store that holds the renumbered values of another one,
  and a machine that may begin with either.
* `Renumbers` — a step and another one do the same up to the numbers; one lemma for each step that
  touches the machine.
* **`Action.renumbered`** — the functions of a run.
-/

namespace LoxLang

variable {σ : Equiv.Perm Nat}

/-! ## Values -/

/-- A value with the number of its declaration event exchanged. -/
def Value.renumbered (σ : Equiv.Perm Nat) : Value → Value
  | function event closure => function (σ event) closure
  | nil => nil
  | bool value => bool value
  | number value => number value
  | text value => text value
  | native index arity => native index arity

/-- A completion with its value renumbered. -/
def Completion.renumbered (σ : Equiv.Perm Nat) : Completion → Completion
  | normal => normal
  | returned value => returned (value.renumbered σ)

lemma Constant.renumbered_value (constant : Constant) :
    constant.value.renumbered σ = constant.value := by
  cases constant <;> rfl

namespace Value

/-- A value that was made by an event that keeps its number. -/
lemma renumbered_eq_self {value : Value}
    (kept : ∀ event closure, value = .function event closure → σ event = event) :
    value.renumbered σ = value := by
  cases value with
  | function event closure => rw [renumbered, kept event closure rfl]
  | _ => rfl

@[simp] lemma isTruthy_renumbered (value : Value) :
    (value.renumbered σ).isTruthy = value.isTruthy := by
  cases value <;> rfl

@[simp] lemma shown_renumbered (value : Value) : (value.renumbered σ).shown = value.shown := by
  cases value with
  | bool value => cases value <;> rfl
  | _ => rfl

/-- An exchange of numbers neither joins functions nor takes one apart. -/
@[simp] lemma equals_renumbered (left right : Value) :
    (left.renumbered σ).equals (right.renumbered σ) = left.equals right := by
  cases left with
  | function event closure =>
      cases right with
      | function other closure' =>
          rw [Bool.eq_iff_iff]
          simp [renumbered, equals]
      | _ => rfl
  | _ => cases right <;> rfl

lemma prefixed_renumbered (operator : Kind) (operand : Value) :
    (operand.renumbered σ).prefixed operator =
      (operand.prefixed operator).map (renumbered σ) := by
  unfold prefixed
  split
  · cases operand <;> rfl
  · rw [isTruthy_renumbered]; rfl
  · rfl

lemma sum_renumbered (left right : Value) :
    (left.renumbered σ).sum (right.renumbered σ) = (left.sum right).map (renumbered σ) := by
  cases left <;> cases right <;> rfl

lemma combined_renumbered (operator : Kind) (left right : Value) :
    (left.renumbered σ).combined operator (right.renumbered σ) =
      (left.combined operator right).map (renumbered σ) := by
  unfold combined
  split
  · rw [equals_renumbered]; rfl
  · rw [equals_renumbered]; rfl
  · exact sum_renumbered left right
  · split
    · rfl
    · next f found =>
      -- arithmetic gives no functions
      have plain (a b : Float) : (f a b).renumbered σ = f a b :=
        renumbered_eq_self fun event closure same =>
          absurd same (arithmetic?_ne_function found a b event closure)
      cases left <;> cases right <;> first | rfl | exact congrArg Except.ok (plain _ _).symm

end Value

/-! ## Stores and machines -/

/-- A store with the same scopes, in which each name has the renumbered value. -/
structure Store.Renumbered (σ : Equiv.Perm Nat) (store other : Store Value) : Prop where
  size : other.scopes.size = store.scopes.size
  outer : ∀ i, other.outer? i = store.outer? i
  bound : ∀ i name, other.local? i name = (store.local? i name).map (Value.renumbered σ)

namespace Store.Renumbered

variable {store other : Store Value}

lemma define (same : store.Renumbered σ other) (scope : Nat) (name : String) (value : Value) :
    (store.define scope name value).Renumbered σ
      (other.define scope name (value.renumbered σ)) where
  size := by rw [size_define, size_define, same.size]
  outer i := by rw [outer?_define, outer?_define, same.outer]
  bound i found := by
    rw [local?_define, local?_define, same.size, same.bound]
    split <;> rfl

lemma child (same : store.Renumbered σ other) (outer : Nat) :
    (store.child outer).2.Renumbered σ (other.child outer).2 where
  size := by rw [size_child, size_child, same.size]
  outer i := by rw [outer?_child, outer?_child, same.size, same.outer]
  bound i name := by rw [local?_child, local?_child, same.bound]

lemma ancestor?_eq (same : store.Renumbered σ other) :
    ∀ distance i : Nat, other.ancestor? i distance = store.ancestor? i distance
  | 0, i => by rw [ancestor?, ancestor?, same.size]
  | distance + 1, i => by
      rw [ancestor?, ancestor?, same.outer]
      cases store.outer? i with
      | none => rfl
      | some o => exact same.ancestor?_eq distance o

lemma getAt?_eq (same : store.Renumbered σ other) (i distance : Nat) (name : String) :
    other.getAt? i distance name = (store.getAt? i distance name).map (Value.renumbered σ) := by
  rw [getAt?, getAt?, same.ancestor?_eq]
  cases store.ancestor? i distance with
  | none => rfl
  | some scope => exact same.bound scope name

lemma globals_eq (same : store.Renumbered σ other) (name : String) :
    other.get? Machine.globals name =
        (store.get? Machine.globals name).map (Value.renumbered σ) ∧
      other.holder? Machine.globals name = store.holder? Machine.globals name := by
  rw [get?_globals, get?_globals, holder?_globals, holder?_globals, same.bound, Option.map_map]
  exact ⟨rfl, rfl⟩

end Store.Renumbered

/-- **A machine that may begin with another store.**  Events to come keep their numbers, and the host has
no functions but the clock. -/
structure Machine.Renumbered (σ : Equiv.Perm Nat) (machine : Machine) (other : Store Value) :
    Prop where
  store : machine.store.Renumbered σ other
  unhosted : machine.Unhosted
  kept : ∀ event, machine.events ≤ event → σ event = event

namespace Machine.Renumbered

variable {machine : Machine} {other : Store Value}

lemma inScope (same : machine.Renumbered σ other) (scope : Nat) :
    ({ machine with current := scope } : Machine).Renumbered σ other :=
  ⟨same.store, same.unhosted, same.kept⟩

lemma withSink (same : machine.Renumbered σ other) (sink : Sink) :
    ({ machine with sink } : Machine).Renumbered σ other :=
  ⟨same.store, same.unhosted, same.kept⟩

/-- The clock has been read once more. -/
lemma read (same : machine.Renumbered σ other) :
    ({ machine with readings := machine.readings + 1 } : Machine).Renumbered σ other :=
  ⟨same.store, same.unhosted, same.kept⟩

end Machine.Renumbered

/-- **Another outcome with the same end**, up to the numbers of declaration events. -/
inductive Outcome.Renumbered {α β : Type} (σ : Equiv.Perm Nat) (f : α → β) :
    Outcome α → Outcome β → Prop where
  | done {value : α} {machine : Machine} {other : Store Value} (same : machine.Renumbered σ other) :
      Renumbered σ f (.done value machine) (.done (f value) { machine with store := other })
  | failed {fault : Fault} {machine : Machine} {other : Store Value}
      (same : machine.Renumbered σ other) :
      Renumbered σ f (.failed fault machine) (.failed fault { machine with store := other })
  | exhausted : Renumbered σ f .exhausted .exhausted

/-! ## Steps -/

/-- **A step and another one do the same**, up to the numbers of declaration events. -/
def Renumbers {α β : Type} (σ : Equiv.Perm Nat) (f : α → β) (step : Action α) (step' : Action β) :
    Prop :=
  ∀ (machine : Machine) (other : Store Value), machine.Renumbered σ other →
    (step machine).Renumbered σ f (step' { machine with store := other })

namespace Renumbers

variable {α β γ δ : Type}

/-! ### Putting steps together -/

lemma pure {f : α → β} {value : α} {value' : β} (given : value' = f value) :
    Renumbers σ f (Pure.pure value) (Pure.pure value') := by
  subst given
  exact fun _ _ same => .done same

lemma exhausted {f : α → β} : Renumbers σ f Action.exhausted Action.exhausted :=
  fun _ _ _ => .exhausted

lemma bind {f : α → β} {g : γ → δ} {step : Action α} {step' : Action β} {next : α → Action γ}
    {next' : β → Action δ} (first : Renumbers σ f step step')
    (second : ∀ value, Renumbers σ g (next value) (next' (f value))) :
    Renumbers σ g (step >>= next) (step' >>= next') := by
  intro machine other same
  have one := first machine other same
  show (Action.bind step next machine).Renumbered σ g (Action.bind step' next' _)
  unfold Action.bind
  generalize step machine = outcome at one ⊢
  generalize step' { machine with store := other } = outcome' at one ⊢
  cases one with
  | done after => exact second _ _ _ after
  | failed after => exact .failed after
  | exhausted => exact .exhausted

/-- The scope returned to is the same. -/
lemma within {f : α → β} {step : Action α} {step' : Action β} (inner : Renumbers σ f step step')
    (scope : Nat) : Renumbers σ f (Action.within scope step) (Action.within scope step') := by
  intro machine other same
  have inside := inner { machine with current := scope } other (same.inScope scope)
  simp only [Action.within]
  generalize step { machine with current := scope } = outcome at inside ⊢
  generalize step' { machine with current := scope, store := other } = outcome' at inside ⊢
  cases inside with
  | done after => exact .done (after.inScope machine.current)
  | failed after => exact .failed (after.inScope machine.current)
  | exhausted => exact .exhausted

/-! ### Steps that touch the machine -/

lemma fail {f : α → β} (error : RuntimeError) (place : Token) :
    Renumbers σ f (Action.fail error place) (Action.fail error place) :=
  fun _ _ same => .failed same

lemma ofExcept {f : α → β} (place : Token) {result : Except RuntimeError α}
    {result' : Except RuntimeError β} (given : result' = result.map f) :
    Renumbers σ f (Action.ofExcept place result) (Action.ofExcept place result') := by
  subst given
  cases result with
  | ok value => exact pure rfl
  | error error => exact fail error place

lemma look (name : Token) (hops : Option Nat) :
    Renumbers σ (Value.renumbered σ) (Action.look name hops) (Action.look name hops) := by
  intro machine other same
  cases hops with
  | none =>
      simp only [Action.look, (same.store.globals_eq name.lexeme).1]
      cases machine.store.get? Machine.globals name.lexeme with
      | none => exact .failed same
      | some value => exact .done same
  | some distance =>
      simp only [Action.look, same.store.getAt?_eq]
      cases machine.store.getAt? machine.current distance name.lexeme with
      | none => exact .failed same
      | some value => exact .done same

lemma assign (name : Token) (hops : Option Nat) (value : Value) :
    Renumbers σ id (Action.assign name hops value)
      (Action.assign name hops (value.renumbered σ)) := by
  intro machine other same
  have changed (scope : Nat) := same.store.define scope name.lexeme value
  cases hops with
  | none =>
      simp only [Action.assign, (same.store.globals_eq name.lexeme).2]
      cases machine.store.holder? Machine.globals name.lexeme with
      | none => exact .failed same
      | some scope => exact .done ⟨changed scope, same.unhosted, same.kept⟩
  | some distance =>
      simp only [Action.assign, same.store.ancestor?_eq]
      cases machine.store.ancestor? machine.current distance with
      | none => exact .failed same
      | some scope => exact .done ⟨changed scope, same.unhosted, same.kept⟩

lemma define (name : Token) (value : Value) :
    Renumbers σ id (Action.define name value) (Action.define name (value.renumbered σ)) :=
  fun machine _ same => .done ⟨same.store.define machine.current name.lexeme value, same.unhosted,
    same.kept⟩

/-- A new event has a number that stays as it is. -/
lemma declare (name : Token) (parameters : List Token) (body : List Stmt) :
    Renumbers σ id (Action.declare name parameters body)
      (Action.declare name parameters body) := by
  intro machine other same
  have made := same.store.define machine.current name.lexeme
    (.function machine.events ⟨name, parameters, body, machine.current⟩)
  rw [Value.renumbered, same.kept _ (le_refl _)] at made
  exact .done ⟨made, same.unhosted, fun event later => same.kept event (Nat.le_of_succ_le later)⟩

lemma openScope (outer : Nat) : Renumbers σ id (Action.openScope outer) (Action.openScope outer) := by
  intro machine other same
  have added := same.store.child outer
  have number : (other.child outer).1 = (machine.store.child outer).1 := same.store.size
  simp only [Action.openScope, number]
  exact .done ⟨added, same.unhosted, same.kept⟩

lemma current : Renumbers σ id Action.current Action.current := fun _ _ same => .done same

lemma bindAll (scope : Nat) (parameters : List Token) (arguments : List Value) :
    Renumbers σ id (Action.bindAll scope parameters arguments)
      (Action.bindAll scope parameters (arguments.map (Value.renumbered σ))) := by
  intro machine other same
  have bound : ∀ (parameters : List Token) (arguments : List Value) (store other : Store Value),
      store.Renumbered σ other →
      ((parameters.zip arguments).foldl
          (fun store bound => store.define scope bound.1.lexeme bound.2) store).Renumbered σ
        ((parameters.zip (arguments.map (Value.renumbered σ))).foldl
          (fun store bound => store.define scope bound.1.lexeme bound.2) other) := by
    intro parameters
    induction parameters with
    | nil => exact fun _ _ _ same => same
    | cons parameter others ih =>
        intro arguments store other same
        cases arguments with
        | nil => exact same
        | cons argument arguments =>
            exact ih arguments _ _ (same.define scope parameter.lexeme argument)
  exact .done ⟨bound parameters arguments _ _ same.store, same.unhosted, same.kept⟩

lemma print (text : String) : Renumbers σ id (Action.print text) (Action.print text) := by
  intro machine other same
  simp only [Action.print]
  rcases machine.sink.write (text ++ "\n").toUTF8 with ⟨_ | error, sink⟩
  · exact .done (same.withSink sink)
  · exact .failed (same.withSink sink)

lemma callNative (index : Nat) (paren : Token) (arguments : List Value) :
    Renumbers σ (Value.renumbered σ) (Action.callNative index paren arguments)
      (Action.callNative index paren (arguments.map (Value.renumbered σ))) := by
  intro machine other same
  simp only [Action.callNative]
  cases held : machine.natives[index]? with
  | none => exact .failed same
  | some native =>
      rw [same.unhosted native (List.mem_of_getElem? held)]
      exact .done same.read

end Renumbers

/-! ## Runs -/

/-- With `n` steps allowed, code does the same from renumbered machines. -/
structure RenumberedRun (σ : Equiv.Perm Nat) (n : Nat) : Prop where
  evaluate : ∀ value, Renumbers σ (Value.renumbered σ) (Action.evaluate n value)
    (Action.evaluate n value)
  evaluateAll : ∀ values, Renumbers σ (List.map (Value.renumbered σ)) (Action.evaluateAll n values)
    (Action.evaluateAll n values)
  call : ∀ callee paren arguments, Renumbers σ (Value.renumbered σ)
    (Action.call n callee paren arguments)
    (Action.call n (callee.renumbered σ) paren (arguments.map (Value.renumbered σ)))
  execute : ∀ stmt, Renumbers σ (Completion.renumbered σ) (Action.execute n stmt)
    (Action.execute n stmt)
  evaluateOr : ∀ value, Renumbers σ (Value.renumbered σ) (Action.evaluateOr n value)
    (Action.evaluateOr n value)
  executeAll : ∀ stmts, Renumbers σ (Completion.renumbered σ) (Action.executeAll n stmts)
    (Action.executeAll n stmts)

namespace RenumberedRun

variable {n : Nat}

lemma evaluate_succ (ih : RenumberedRun σ n) (value : Expr) : Renumbers σ (Value.renumbered σ)
    (Action.evaluate (n + 1) value) (Action.evaluate (n + 1) value) := by
  cases value with
  | literal constant => exact .pure constant.renumbered_value.symm
  | group inner => exact ih.evaluate inner
  | unary operator operand =>
      exact (ih.evaluate operand).bind fun value =>
        .ofExcept operator (value.prefixed_renumbered _)
  | binary left operator right =>
      exact (ih.evaluate left).bind fun value => (ih.evaluate right).bind fun other =>
        .ofExcept operator (value.combined_renumbered _ other)
  | logical left operator right =>
      refine (ih.evaluate left).bind fun value => ?_
      rw [Value.isTruthy_renumbered]
      split
      · exact .pure rfl
      · exact ih.evaluate right
  | «variable» name hops => exact .look name hops
  | assign name value hops =>
      exact (ih.evaluate value).bind fun value =>
        (Renumbers.assign name hops value).bind fun _ => .pure rfl
  | call callee paren arguments =>
      exact (ih.evaluate callee).bind fun value => (ih.evaluateAll arguments).bind fun values =>
        ih.call value paren values

lemma evaluateAll_succ (ih : RenumberedRun σ n) (values : List Expr) :
    Renumbers σ (List.map (Value.renumbered σ)) (Action.evaluateAll (n + 1) values)
      (Action.evaluateAll (n + 1) values) := by
  cases values with
  | nil => exact .pure rfl
  | cons first others =>
      exact (ih.evaluate first).bind fun _ => (ih.evaluateAll others).bind fun _ => .pure rfl

lemma call_succ (ih : RenumberedRun σ n) (paren : Token) (arguments : List Value) :
    ∀ callee, Renumbers σ (Value.renumbered σ) (Action.call (n + 1) callee paren arguments)
      (Action.call (n + 1) (callee.renumbered σ) paren (arguments.map (Value.renumbered σ)))
  | .function event closure => by
      simp only [Value.renumbered, Action.call, List.length_map]
      split
      · refine (Renumbers.openScope closure.scope).bind fun scope => ?_
        refine (Renumbers.bindAll scope closure.parameters arguments).bind fun _ => ?_
        refine ((ih.executeAll closure.body).within scope).bind fun completion => ?_
        cases completion with
        | normal => exact .pure rfl
        | returned value => exact .pure rfl
      · exact .fail _ paren
  | .native index arity => by
      simp only [Value.renumbered, Action.call, List.length_map]
      split
      · exact .callNative index paren arguments
      · exact .fail _ paren
  | .nil => .fail _ paren
  | .bool _ => .fail _ paren
  | .number _ => .fail _ paren
  | .text _ => .fail _ paren

lemma execute_succ (ih : RenumberedRun σ n) (stmt : Stmt) : Renumbers σ (Completion.renumbered σ)
    (Action.execute (n + 1) stmt) (Action.execute (n + 1) stmt) := by
  cases stmt with
  | expression value => exact (ih.evaluate value).bind fun _ => .pure rfl
  | print value =>
      refine (ih.evaluate value).bind fun value => ?_
      rw [Value.shown_renumbered]
      exact (Renumbers.print _).bind fun _ => .pure rfl
  | «variable» name initializer =>
      exact (ih.evaluateOr initializer).bind fun value =>
        (Renumbers.define name value).bind fun _ => .pure rfl
  | block body =>
      exact Renumbers.current.bind fun outer => (Renumbers.openScope outer).bind fun scope =>
        (ih.executeAll body).within scope
  | branch condition consequent alternative =>
      refine (ih.evaluate condition).bind fun value => ?_
      rw [Value.isTruthy_renumbered]
      split
      · exact ih.execute consequent
      · cases alternative with
        | none => exact .pure rfl
        | some alternative => exact ih.execute alternative
  | loop condition body =>
      refine (ih.evaluate condition).bind fun value => ?_
      rw [Value.isTruthy_renumbered]
      split
      · refine (ih.execute body).bind fun completion => ?_
        cases completion with
        | normal => exact ih.execute (.loop condition body)
        | returned value => exact .pure rfl
      · exact .pure rfl
  | function name parameters body =>
      exact (Renumbers.declare name parameters body).bind fun _ => .pure rfl
  | return_ keyword value => exact (ih.evaluateOr value).bind fun _ => .pure rfl

lemma evaluateOr_succ (ih : RenumberedRun σ n) : ∀ value, Renumbers σ (Value.renumbered σ)
    (Action.evaluateOr (n + 1) value) (Action.evaluateOr (n + 1) value)
  | none => .pure rfl
  | some value => ih.evaluate value

lemma executeAll_succ (ih : RenumberedRun σ n) (stmts : List Stmt) :
    Renumbers σ (Completion.renumbered σ) (Action.executeAll (n + 1) stmts)
      (Action.executeAll (n + 1) stmts) := by
  cases stmts with
  | nil => exact .pure rfl
  | cons first others =>
      refine (ih.execute first).bind fun completion => ?_
      cases completion with
      | normal => exact ih.executeAll others
      | returned value => exact .pure rfl

end RenumberedRun

/-- **A run makes the same steps from a renumbered machine.** -/
theorem Action.renumbered (σ : Equiv.Perm Nat) (n : Nat) : RenumberedRun σ n := by
  induction n with
  | zero => exact ⟨fun _ => .exhausted, fun _ => .exhausted, fun _ _ _ => .exhausted,
      fun _ => .exhausted, fun _ => .exhausted, fun _ => .exhausted⟩
  | succ n ih => exact ⟨ih.evaluate_succ, ih.evaluateAll_succ, fun callee paren arguments =>
      ih.call_succ paren arguments callee, ih.execute_succ, ih.evaluateOr_succ, ih.executeAll_succ⟩

end LoxLang
