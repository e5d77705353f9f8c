import Mathlib
import LoxLang.Proofs.Evaluation.Tabled
import LoxLang.Proofs.Program.Revision
import LoxLang.Proofs.Store.Map

/-!
# Running revised programs

A run reads no line, except to tell of an error, and reads hops only to find a variable.  So revising
a program and the state that it starts in revises what comes of the run, and nothing else: the same
steps are made, the same text is printed, and the same error stops it on the revised line.

* `Value.revised`, `Machine.revised`, `Outcome.revised` — values, states and outcomes with the trees
  in them revised.
* `Revises` — a step and another one do the same up to a revision; one lemma for each step that touches
  the machine.
* **`Tabled.revised`** — the functions of a run, where the table takes part: reading a table after a
  revision of the hops is reading the revised tree with the table itself.

Functions that a host wrote may look into the trees of their arguments, so the host has none here but
the clock.
-/

namespace LoxLang

/-! ## Values, states and outcomes -/

/-- A function with its declaration revised. -/
def Closure.revised (r : Revision) (closure : Closure) : Closure :=
  ⟨closure.name.revised r, closure.parameters.map (Token.revised r),
    Stmt.revisedAll r closure.body, closure.scope⟩

/-- A value with the declaration in it revised. -/
def Value.revised (r : Revision) : Value → Value
  | function event closure => function event (closure.revised r)
  | nil => nil
  | bool value => bool value
  | number value => number value
  | text value => text value
  | native index arity => native index arity

/-- A completion with its value revised. -/
def Completion.revised (r : Revision) : Completion → Completion
  | normal => normal
  | returned value => returned (value.revised r)

/-- A state with all kept declarations revised. -/
def Machine.revised (r : Revision) (machine : Machine) : Machine :=
  { machine with store := machine.store.map (Value.revised r) }

/-- A fault on its revised line. -/
def Fault.revised (r : Revision) : Fault → Fault
  | runtime error line => runtime error (r.line line)
  | output error => output error

/-- An outcome with its state revised, and its value changed by `f`. -/
def Outcome.revised {α β : Type} (r : Revision) (f : α → β) : Outcome α → Outcome β
  | done value machine => done (f value) (machine.revised r)
  | failed fault machine => failed (fault.revised r) (machine.revised r)
  | exhausted => exhausted

/-- The host has no functions but the clock. -/
def Machine.Unhosted (machine : Machine) : Prop := ∀ native ∈ machine.natives, native = .clock

/-- Whether a sink passes everything on at once and never refuses. -/
def Sink.IsDirect (sink : Sink) : Prop := ∃ arrived, sink = direct arrived

/-- What a step leaves as it is outside of the program: the functions of the host, and that the sink
is direct. -/
structure Machine.SameHost (before after : Machine) : Prop where
  natives : after.natives = before.natives
  direct : before.sink.IsDirect → after.sink.IsDirect

/-- The state of an outcome has the host that the step began with. -/
def Outcome.SameHost {α : Type} (before : Machine) : Outcome α → Prop
  | done _ after => before.SameHost after
  | failed _ after => before.SameHost after
  | exhausted => True

lemma Machine.SameHost.refl (machine : Machine) : machine.SameHost machine := ⟨rfl, id⟩

lemma Machine.SameHost.unhosted {before after : Machine} (same : before.SameHost after)
    (unhosted : before.Unhosted) : after.Unhosted := by
  rw [Machine.Unhosted, same.natives]
  exact unhosted

lemma Outcome.SameHost.trans {α : Type} {first second : Machine} {outcome : Outcome α}
    (same : first.SameHost second) (rest : outcome.SameHost second) : outcome.SameHost first := by
  cases outcome with
  | done value after =>
      exact ⟨rest.natives.trans same.natives, fun direct => rest.direct (same.direct direct)⟩
  | failed fault after =>
      exact ⟨rest.natives.trans same.natives, fun direct => rest.direct (same.direct direct)⟩
  | exhausted => trivial

/-! ## One revision after another -/

section

variable (second first : Revision)

lemma Closure.revised_comp (closure : Closure) :
    closure.revised (second.comp first) = (closure.revised first).revised second := by
  simp only [Closure.revised, Token.revised_comp, Stmt.revisedAll_comp, List.map_map]
  rfl

lemma Value.revised_comp (value : Value) :
    value.revised (second.comp first) = (value.revised first).revised second := by
  cases value with
  | function event closure => exact congrArg (function event) (closure.revised_comp second first)
  | _ => rfl

lemma Machine.revised_comp (machine : Machine) :
    machine.revised (second.comp first) = (machine.revised first).revised second := by
  have values : Value.revised (second.comp first) = Value.revised second ∘ Value.revised first :=
    funext fun value => value.revised_comp second first
  simp only [Machine.revised, Store.map_map, values]

lemma Value.revised_same (value : Value) : value.revised .same = value := by
  cases value with
  | function event closure =>
      have lines : Revision.same.line = id := rfl
      have kept : ∀ occurrences, Revision.same.Keeps occurrences := fun _ _ _ => rfl
      simp only [Value.revised, Closure.revised, Token.revised_eq_self lines,
        Token.map_revised_eq_self lines, Stmt.revisedAll_eq_self lines _ (kept _)]
  | _ => rfl

lemma Machine.revised_same (machine : Machine) : machine.revised .same = machine := by
  have values : Value.revised .same = id := funext Value.revised_same
  simp only [Machine.revised, values, Store.map_id]

end

/-! ## What a revision leaves alone -/

section

variable {r r' : Revision}

lemma Value.revised_eq_self_imp (lines : r'.line = id)
    (follows : ∀ hops, r.hops hops = hops → r'.hops hops = hops) (value : Value)
    (same : value.revised r = value) : value.revised r' = value := by
  cases value with
  | function event closure =>
      have body : Stmt.revisedAll r closure.body = closure.body :=
        congrArg Closure.body (Value.function.inj same).2
      have kept := Stmt.keeps_of_revisedAll body
      simp only [Value.revised, Closure.revised, Token.revised_eq_self lines,
        Token.map_revised_eq_self lines]
      rw [Stmt.revisedAll_eq_self lines _ fun occurrence mem => follows _ (kept occurrence mem)]
  | _ => rfl

/-- A state that one revision leaves alone is left alone by another one that changes less. -/
lemma Machine.revised_eq_self_imp (lines : r'.line = id)
    (follows : ∀ hops, r.hops hops = hops → r'.hops hops = hops) {machine : Machine}
    (same : machine.revised r = machine) : machine.revised r' = machine := by
  have store : machine.store.map (Value.revised r') = machine.store :=
    Store.map_eq_self_imp (Value.revised_eq_self_imp lines follows) (congrArg Machine.store same)
  rw [Machine.revised, store]

end

section

variable (r : Revision)

/-! ## What is asked of values -/

@[simp] lemma Value.isTruthy_revised (value : Value) :
    (value.revised r).isTruthy = value.isTruthy := by
  cases value <;> rfl

@[simp] lemma Value.shown_revised (value : Value) : (value.revised r).shown = value.shown := by
  cases value with
  | bool value => cases value <;> rfl
  | _ => rfl

@[simp] lemma Value.equals_revised (left right : Value) :
    (left.revised r).equals (right.revised r) = left.equals right := by
  cases left <;> cases right <;> rfl

lemma Constant.revised_value (constant : Constant) : constant.value.revised r = constant.value := by
  cases constant <;> rfl

lemma Value.prefixed_revised (operator : Kind) (operand : Value) :
    (operand.revised r).prefixed operator =
      (operand.prefixed operator).map (Value.revised r) := by
  unfold prefixed
  split
  · cases operand <;> rfl
  · rw [Value.isTruthy_revised]; rfl
  · rfl

lemma Value.sum_revised (left right : Value) :
    (left.revised r).sum (right.revised r) = (left.sum right).map (Value.revised r) := by
  cases left <;> cases right <;> rfl

/-- Arithmetic gives no functions. -/
lemma Value.arithmetic?_revised {operator : Kind} {f : Float → Float → Value}
    (found : arithmetic? operator = some f) (a b : Float) : (f a b).revised r = f a b := by
  unfold arithmetic? at found
  split at found <;> cases found <;> rfl

lemma Value.combined_revised (operator : Kind) (left right : Value) :
    (left.revised r).combined operator (right.revised r) =
      (left.combined operator right).map (Value.revised r) := by
  unfold combined
  split
  · rw [equals_revised]; rfl
  · rw [equals_revised]; rfl
  · exact sum_revised r left right
  · split
    · rfl
    · next f h =>
      cases left <;> cases right <;>
        first | rfl | exact congrArg Except.ok (arithmetic?_revised r h _ _).symm

/-! ## Steps -/

variable {r} {α β γ δ : Type}

/-- **A step and another one do the same up to a revision.** -/
def Revises (r : Revision) (f : α → β) (step : Action α) (step' : Action β) : Prop :=
  ∀ machine : Machine, machine.Unhosted →
    step' (machine.revised r) = (step machine).revised r f ∧ (step machine).SameHost machine

namespace Revises

lemma pure {f : α → β} {value : α} {value' : β} (same : value' = f value) :
    Revises r f (Pure.pure value) (Pure.pure value') := fun machine _ =>
  ⟨by rw [same]; rfl, .refl machine⟩

lemma exhausted {f : α → β} : Revises r f Action.exhausted Action.exhausted := fun _ _ =>
  ⟨rfl, trivial⟩

lemma bind {f : α → β} {g : γ → δ} {step : Action α} {step' : Action β} {next : α → Action γ}
    {next' : β → Action δ} (first : Revises r f step step')
    (second : ∀ value, Revises r g (next value) (next' (f value))) :
    Revises r g (step >>= next) (step' >>= next') := by
  intro machine unhosted
  obtain ⟨same, host⟩ := first machine unhosted
  show Action.bind step' next' (machine.revised r) = (Action.bind step next machine).revised r g ∧
    (Action.bind step next machine).SameHost machine
  unfold Action.bind
  rw [same]
  cases found : step machine with
  | done value after =>
      rw [found] at host
      obtain ⟨same, host'⟩ := second value after (host.unhosted unhosted)
      exact ⟨same, host'.trans host⟩
  | failed fault after =>
      rw [found] at host
      exact ⟨rfl, host⟩
  | exhausted => exact ⟨rfl, trivial⟩

/-- The scope returned to is the same. -/
lemma within {f : α → β} {step : Action α} {step' : Action β} (inner : Revises r f step step')
    (scope : Nat) : Revises r f (Action.within scope step) (Action.within scope step') := by
  intro machine unhosted
  have entered : ({ machine with current := scope } : Machine).Unhosted := unhosted
  obtain ⟨same, host⟩ := inner { machine with current := scope } entered
  have same : step' { machine.revised r with current := scope } = _ := same
  simp only [Action.within, same]
  cases found : step { machine with current := scope } with
  | done value after =>
      rw [found] at host
      exact ⟨rfl, host.natives, host.direct⟩
  | failed fault after =>
      rw [found] at host
      exact ⟨rfl, host.natives, host.direct⟩
  | exhausted => exact ⟨rfl, trivial⟩

lemma fail {f : α → β} (error : RuntimeError) (place : Token) :
    Revises r f (Action.fail error place) (Action.fail error (place.revised r)) :=
  fun machine _ => ⟨rfl, .refl machine⟩

lemma ofExcept {f : α → β} (place : Token) {result : Except RuntimeError α}
    {result' : Except RuntimeError β} (same : result' = result.map f) :
    Revises r f (Action.ofExcept place result) (Action.ofExcept (place.revised r) result') := by
  subst same
  cases result with
  | ok value => exact pure rfl
  | error error => exact fail error place

/-! ### Names -/

lemma look (name : Token) (hops : Option Nat) :
    Revises r (Value.revised r) (Action.look name hops) (Action.look (name.revised r) hops) := by
  intro machine unhosted
  cases hops with
  | none =>
      have found : (machine.revised r).store.get? Machine.globals name.lexeme =
          (machine.store.get? Machine.globals name.lexeme).map (Value.revised r) := Store.get?_map ..
      simp only [Action.look, Token.lexeme_revised, found]
      cases machine.store.get? Machine.globals name.lexeme with
      | none => exact ⟨rfl, rfl, id⟩
      | some value => exact ⟨rfl, rfl, id⟩
  | some distance =>
      have found : (machine.revised r).store.getAt? machine.current distance name.lexeme =
          (machine.store.getAt? machine.current distance name.lexeme).map (Value.revised r) :=
        Store.getAt?_map ..
      have current : (machine.revised r).current = machine.current := rfl
      simp only [Action.look, Token.lexeme_revised, current, found]
      cases machine.store.getAt? machine.current distance name.lexeme with
      | none => exact ⟨rfl, rfl, id⟩
      | some value => exact ⟨rfl, rfl, id⟩

/-- Binding a name in a revised state. -/
lemma define_store (machine : Machine) (scope : Nat) (name : String) (value : Value) :
    (machine.revised r).store.define scope name (value.revised r) =
      (machine.store.define scope name value).map (Value.revised r) :=
  (Store.map_define (Value.revised r) machine.store scope name value).symm

lemma assign (name : Token) (hops : Option Nat) (value : Value) :
    Revises r id (Action.assign name hops value)
      (Action.assign (name.revised r) hops (value.revised r)) := by
  intro machine unhosted
  cases hops with
  | none =>
      have found : (machine.revised r).store.holder? Machine.globals name.lexeme =
          machine.store.holder? Machine.globals name.lexeme := Store.holder?_map ..
      simp only [Action.assign, Token.lexeme_revised, found, define_store]
      cases machine.store.holder? Machine.globals name.lexeme with
      | none => exact ⟨rfl, rfl, id⟩
      | some scope => exact ⟨rfl, rfl, id⟩
  | some distance =>
      have found : (machine.revised r).store.ancestor? machine.current distance =
          machine.store.ancestor? machine.current distance := Store.ancestor?_map ..
      have current : (machine.revised r).current = machine.current := rfl
      simp only [Action.assign, Token.lexeme_revised, current, found, define_store]
      cases machine.store.ancestor? machine.current distance with
      | none => exact ⟨rfl, rfl, id⟩
      | some scope => exact ⟨rfl, rfl, id⟩

lemma define (name : Token) (value : Value) :
    Revises r id (Action.define name value) (Action.define (name.revised r) (value.revised r)) := by
  intro machine unhosted
  simp only [Action.define, Token.lexeme_revised, define_store]
  exact ⟨rfl, rfl, id⟩

lemma declare (name : Token) (parameters : List Token) (body : List Stmt) :
    Revises r id (Action.declare name parameters body)
      (Action.declare (name.revised r) (parameters.map (Token.revised r))
        (Stmt.revisedAll r body)) := by
  intro machine unhosted
  refine ⟨?_, rfl, id⟩
  have bound := define_store machine (r := r) machine.current name.lexeme
    (.function machine.events ⟨name, parameters, body, machine.current⟩)
  exact congrArg (fun store => Outcome.done ()
    { machine.revised r with store, events := machine.events + 1 }) bound

/-! ### Scopes -/

lemma openScope (outer : Nat) : Revises r id (Action.openScope outer) (Action.openScope outer) := by
  intro machine unhosted
  have added : (machine.revised r).store.child outer = ((machine.store.child outer).1,
      (machine.store.child outer).2.map (Value.revised r)) := Store.map_child ..
  simp only [Action.openScope, added]
  exact ⟨rfl, rfl, id⟩

lemma current : Revises r id Action.current Action.current := fun machine _ => ⟨rfl, .refl machine⟩

lemma bindAll (scope : Nat) (parameters : List Token) (arguments : List Value) :
    Revises r id (Action.bindAll scope parameters arguments)
      (Action.bindAll scope (parameters.map (Token.revised r))
        (arguments.map (Value.revised r))) := by
  intro machine unhosted
  refine ⟨?_, rfl, id⟩
  have bound : ∀ (parameters : List Token) (arguments : List Value) (store : Store Value),
      ((parameters.map (Token.revised r)).zip (arguments.map (Value.revised r))).foldl
          (fun store bound => store.define scope bound.1.lexeme bound.2)
          (store.map (Value.revised r)) =
        ((parameters.zip arguments).foldl
          (fun store bound => store.define scope bound.1.lexeme bound.2)
          store).map (Value.revised r) := by
    intro parameters
    induction parameters with
    | nil => exact fun _ _ => rfl
    | cons parameter others ih =>
        intro arguments store
        cases arguments with
        | nil => rfl
        | cons argument arguments =>
            simp only [List.map_cons, List.zip_cons_cons, List.foldl_cons, Token.lexeme_revised,
              ← Store.map_define]
            exact ih arguments _
  exact congrArg (fun store => Outcome.done () { machine.revised r with store })
    (bound parameters arguments machine.store)

/-! ### The world outside -/

lemma print (text : String) : Revises r id (Action.print text) (Action.print text) := by
  intro machine unhosted
  have sink : (machine.revised r).sink = machine.sink := rfl
  have direct : machine.sink.IsDirect → (machine.sink.write (text ++ "\n").toUTF8).2.IsDirect := by
    rintro ⟨arrived, same⟩
    rw [same]
    exact ⟨_, rfl⟩
  simp only [Action.print, sink]
  cases written : machine.sink.write (text ++ "\n").toUTF8 with
  | mk refused after =>
      rw [written] at direct
      cases refused with
      | none => exact ⟨rfl, rfl, direct⟩
      | some error => exact ⟨rfl, rfl, direct⟩

lemma callNative (index : Nat) (paren : Token) (arguments : List Value) :
    Revises r (Value.revised r) (Action.callNative index paren arguments)
      (Action.callNative index (paren.revised r) (arguments.map (Value.revised r))) := by
  intro machine unhosted
  have natives : (machine.revised r).natives = machine.natives := rfl
  simp only [Action.callNative, natives]
  cases held : machine.natives[index]? with
  | none => exact ⟨rfl, rfl, id⟩
  | some native =>
      rw [unhosted native (List.mem_of_getElem? held)]
      exact ⟨rfl, rfl, id⟩

end Revises

/-! ## Runs -/

/-- With `n` steps allowed, revised code does what the code does up to the revision. -/
structure RevisedRun (table : Option Nat → Option Nat) (r : Revision) (n : Nat) : Prop where
  evaluate : ∀ value, Revises r (Value.revised r) ((Tabled.steps (table ∘ r.hops)).evaluate n value)
    ((Tabled.steps table).evaluate n (value.revised r))
  evaluateAll : ∀ values, Revises r (List.map (Value.revised r))
    ((Tabled.steps (table ∘ r.hops)).evaluateAll n values)
    ((Tabled.steps table).evaluateAll n (Expr.revisedAll r values))
  call : ∀ callee paren arguments, Revises r (Value.revised r)
    ((Tabled.steps (table ∘ r.hops)).call n callee paren arguments)
    ((Tabled.steps table).call n (callee.revised r) (paren.revised r) (arguments.map (Value.revised r)))
  execute : ∀ stmt, Revises r (Completion.revised r) ((Tabled.steps (table ∘ r.hops)).execute n stmt)
    ((Tabled.steps table).execute n (stmt.revised r))
  evaluateOr : ∀ value, Revises r (Value.revised r) ((Tabled.steps (table ∘ r.hops)).evaluateOr n value)
    ((Tabled.steps table).evaluateOr n (value.map (Expr.revised r)))
  executeAll : ∀ stmts, Revises r (Completion.revised r)
    ((Tabled.steps (table ∘ r.hops)).executeAll n stmts)
    ((Tabled.steps table).executeAll n (Stmt.revisedAll r stmts))

namespace RevisedRun

variable {table : Option Nat → Option Nat} {n : Nat}

lemma evaluate_succ (ih : RevisedRun table r n) (value : Expr) : Revises r (Value.revised r)
    ((Tabled.steps (table ∘ r.hops)).evaluate (n + 1) value)
    ((Tabled.steps table).evaluate (n + 1) (value.revised r)) := by
  cases value with
  | literal constant => exact .pure (constant.revised_value r).symm
  | group inner => exact ih.evaluate inner
  | unary operator operand =>
      exact (ih.evaluate operand).bind fun value => .ofExcept operator (value.prefixed_revised r _)
  | binary left operator right =>
      exact (ih.evaluate left).bind fun value => (ih.evaluate right).bind fun other =>
        .ofExcept operator (value.combined_revised r _ other)
  | logical left operator right =>
      refine (ih.evaluate left).bind fun value => ?_
      rw [Value.isTruthy_revised, Token.kind_revised]
      split
      · exact .pure rfl
      · exact ih.evaluate right
  | «variable» name key => exact .look name (table (r.hops key))
  | assign name value key =>
      exact (ih.evaluate value).bind fun value =>
        (Revises.assign name (table (r.hops key)) value).bind fun _ => .pure rfl
  | call callee paren arguments =>
      exact (ih.evaluate callee).bind fun value => (ih.evaluateAll arguments).bind fun values =>
        ih.call value paren values

lemma evaluateAll_succ (ih : RevisedRun table r n) (values : List Expr) :
    Revises r (List.map (Value.revised r)) ((Tabled.steps (table ∘ r.hops)).evaluateAll (n + 1) values)
      ((Tabled.steps table).evaluateAll (n + 1) (Expr.revisedAll r values)) := by
  cases values with
  | nil => exact .pure rfl
  | cons first others =>
      exact (ih.evaluate first).bind fun _ => (ih.evaluateAll others).bind fun _ => .pure rfl

lemma call_succ (ih : RevisedRun table r n) (paren : Token) (arguments : List Value) :
    ∀ callee, Revises r (Value.revised r)
      ((Tabled.steps (table ∘ r.hops)).call (n + 1) callee paren arguments)
      ((Tabled.steps table).call (n + 1) (callee.revised r) (paren.revised r)
        (arguments.map (Value.revised r)))
  | .function event closure => by
      simp only [Value.revised, Steps.call, Steps.ofCall, Closure.revised, List.length_map]
      split
      · refine (Revises.openScope closure.scope).bind fun scope => ?_
        refine (Revises.bindAll scope closure.parameters arguments).bind fun _ => ?_
        refine ((ih.executeAll closure.body).within scope).bind fun completion => ?_
        cases completion with
        | normal => exact .pure rfl
        | returned value => exact .pure rfl
      · exact .fail _ paren
  | .native index arity => by
      simp only [Value.revised, Steps.call, Steps.ofCall, List.length_map]
      split
      · exact .callNative index paren arguments
      · exact .fail _ paren
  | .nil => .fail _ paren
  | .bool _ => .fail _ paren
  | .number _ => .fail _ paren
  | .text _ => .fail _ paren

lemma execute_succ (ih : RevisedRun table r n) (stmt : Stmt) : Revises r (Completion.revised r)
    ((Tabled.steps (table ∘ r.hops)).execute (n + 1) stmt)
    ((Tabled.steps table).execute (n + 1) (stmt.revised r)) := by
  cases stmt with
  | expression value => exact (ih.evaluate value).bind fun _ => .pure rfl
  | print value =>
      refine (ih.evaluate value).bind fun value => ?_
      rw [Value.shown_revised]
      exact (Revises.print _).bind fun _ => .pure rfl
  | «variable» name initializer =>
      exact (ih.evaluateOr initializer).bind fun value =>
        (Revises.define name value).bind fun _ => .pure rfl
  | block body =>
      exact Revises.current.bind fun outer => (Revises.openScope outer).bind fun scope =>
        (ih.executeAll body).within scope
  | branch condition consequent alternative =>
      refine (ih.evaluate condition).bind fun value => ?_
      rw [Value.isTruthy_revised]
      split
      · exact ih.execute consequent
      · cases alternative with
        | none => exact .pure rfl
        | some alternative => exact ih.execute alternative
  | loop condition body =>
      refine (ih.evaluate condition).bind fun value => ?_
      rw [Value.isTruthy_revised]
      split
      · refine (ih.execute body).bind fun completion => ?_
        cases completion with
        | normal => exact ih.execute (.loop condition body)
        | returned value => exact .pure rfl
      · exact .pure rfl
  | function name parameters body =>
      exact (Revises.declare name parameters body).bind fun _ => .pure rfl
  | return_ keyword value => exact (ih.evaluateOr value).bind fun _ => .pure rfl

lemma evaluateOr_succ (ih : RevisedRun table r n) : ∀ value, Revises r (Value.revised r)
    ((Tabled.steps (table ∘ r.hops)).evaluateOr (n + 1) value)
    ((Tabled.steps table).evaluateOr (n + 1) (value.map (Expr.revised r)))
  | none => .pure rfl
  | some value => ih.evaluate value

lemma executeAll_succ (ih : RevisedRun table r n) (stmts : List Stmt) :
    Revises r (Completion.revised r) ((Tabled.steps (table ∘ r.hops)).executeAll (n + 1) stmts)
      ((Tabled.steps table).executeAll (n + 1) (Stmt.revisedAll r stmts)) := by
  cases stmts with
  | nil => exact .pure rfl
  | cons first others =>
      refine (ih.execute first).bind fun completion => ?_
      cases completion with
      | normal => exact ih.executeAll others
      | returned value => exact .pure rfl

end RevisedRun

/-- **Revising the code revises what comes of it.** -/
theorem Tabled.revised (table : Option Nat → Option Nat) (r : Revision) (n : Nat) :
    RevisedRun table r n := by
  induction n with
  | zero => exact ⟨fun _ => .exhausted, fun _ => .exhausted, fun _ _ _ => .exhausted,
      fun _ => .exhausted, fun _ => .exhausted, fun _ => .exhausted⟩
  | succ n ih => exact ⟨ih.evaluate_succ, ih.evaluateAll_succ, fun callee paren arguments =>
      ih.call_succ paren arguments callee, ih.execute_succ, ih.evaluateOr_succ, ih.executeAll_succ⟩

/-! ## Whole programs -/

/-- A state at the start keeps no declarations. -/
lemma Machine.revised_start (r : Revision) (sink : Sink) (clock : Nat → Float) :
    (Machine.start sink clock).revised r = Machine.start sink clock := by
  simp only [Machine.start, Machine.register, Machine.revised, Store.map_define,
    Store.map_root_empty]
  rfl

lemma Machine.unhosted_start (sink : Sink) (clock : Nat → Float) :
    (Machine.start sink clock).Unhosted := fun _ mem => List.mem_singleton.mp mem

/-- Flushing a revised state. -/
lemma Machine.flush_revised (fault : Option Fault) (machine : Machine) :
    (machine.revised r).flush (fault.map (Fault.revised r)) =
      ((machine.flush fault).1.map (Fault.revised r), (machine.flush fault).2.revised r) := by
  have sink : (machine.revised r).sink = machine.sink := rfl
  simp only [Machine.flush, sink]
  rcases machine.sink.flush with ⟨_ | error, sink⟩
  · rfl
  · rfl

lemma Machine.flush_sameHost {before machine : Machine} (same : before.SameHost machine)
    (fault : Option Fault) : before.SameHost (machine.flush fault).2 := by
  have direct : machine.sink.IsDirect → machine.sink.flush.2.IsDirect := by
    rintro ⟨arrived, same⟩
    rw [same]
    exact ⟨_, rfl⟩
  simp only [Machine.flush]
  rcases flushed : machine.sink.flush with ⟨_ | error, sink⟩
  · rw [flushed] at direct
    exact ⟨same.natives, fun known => direct (same.direct known)⟩
  · rw [flushed] at direct
    exact ⟨same.natives, fun known => direct (same.direct known)⟩

/-- **Revising a program revises what comes of it.** -/
theorem Tabled.interpret_revised (table : Option Nat → Option Nat) (r : Revision) (allowance : Nat)
    (program : List Stmt) {machine : Machine} (unhosted : machine.Unhosted) :
    Tabled.interpret table allowance (Stmt.revisedAll r program) (machine.revised r) =
        (Tabled.interpret (table ∘ r.hops) allowance program machine).map
          (fun told => (told.1.map (Fault.revised r), told.2.revised r)) ∧
      ∀ told, Tabled.interpret (table ∘ r.hops) allowance program machine = some told →
        machine.SameHost told.2 := by
  obtain ⟨same, host⟩ := (Tabled.revised table r allowance).executeAll program machine unhosted
  rw [Tabled.interpret, Tabled.interpret, same]
  cases found : (Tabled.steps (table ∘ r.hops)).executeAll allowance program machine with
  | done completion after =>
      rw [found] at host
      refine ⟨congrArg some (Machine.flush_revised none after), fun told h => ?_⟩
      rw [← Option.some.inj h]
      exact Machine.flush_sameHost host none
  | failed fault after =>
      rw [found] at host
      refine ⟨congrArg some (Machine.flush_revised (some fault) after), fun told h => ?_⟩
      rw [← Option.some.inj h]
      exact Machine.flush_sameHost host (some fault)
  | exhausted => exact ⟨rfl, fun _ h => by cases h⟩

end

end LoxLang
