import LoxLang.Proofs.Evaluation.Notes
import LoxLang.Proofs.Grammar.WellFormed
import LoxLang.Proofs.Store.Growth
import Mathlib

/-!
# Every function was produced once

All functions that a run comes by were produced in the run or before it: by a declaration or by a
registration, which gave each of them an identity that no other has.  Whatever happens to a function
afterwards, it keeps that identity, and so two functions that meet are compared by the moments at which
they were produced.

* `Identity` — what functions are told apart by, and `Value.equals_eq_decide`, that they are.
* `Value.ProducedIn` — the notes tell of the production of a function.
* `Note.Coherent` — no identity was given twice, and what meets was produced before.
* `Machine.Recorded` — the notes tell where all functions come from that the scopes hold.
* `Annotated.Records` — a step that keeps it so and yields what the notes tell of; one lemma for each
  way to put steps together, and for each step that touches the machine.
* **`Annotated.records`** — so do the evaluation and the execution of all trees.
* **`Note.Coherent.meeting`** — what the notes say of two functions that meet.
-/

namespace LoxLang

/-! ## Identities -/

/-- What functions are told apart by. -/
inductive Identity where
  /-- The execution of a declaration, by its number. -/
  | declaration (event : Nat)
  /-- The registration of a function of the host, by its number. -/
  | registration (index : Nat)
  deriving DecidableEq

namespace Value

/-- The identity of a function; none for other values. -/
def identity? : Value → Option Identity
  | function event _ => some (.declaration event)
  | native index _ => some (.registration index)
  | _ => none

lemma isSome_identity? (value : Value) : value.identity?.isSome = value.isCallable := by
  cases value <;> rfl

/-- **Functions are equal exactly if they have one identity.** -/
lemma equals_eq_decide {left right : Value} (leftCallable : left.isCallable = true)
    (rightCallable : right.isCallable = true) :
    left.equals right = decide (left.identity? = right.identity?) := by
  cases left with
  | function event closure =>
      cases right with
      | function other closure => simp [equals, identity?, Bool.beq_eq_decide_eq]
      | native index arity => simp [equals, identity?]
      | _ => cases rightCallable
  | native index arity =>
      cases right with
      | function other closure => simp [equals, identity?]
      | native other arity => simp [equals, identity?, Bool.beq_eq_decide_eq]
      | _ => cases rightCallable
  | _ => cases leftCallable

/-! ### Operators yield no functions -/

lemma isCallable_prefixed {operator : Kind} {operand value : Value}
    (yields : operand.prefixed operator = .ok value) : value.isCallable = false := by
  unfold prefixed at yields
  split at yields
  · split at yields <;> cases yields
    rfl
  · cases yields
    rfl
  · cases yields

lemma isCallable_arithmetic {operator : Kind} {f : Float → Float → Value}
    (found : arithmetic? operator = some f) (a b : Float) : (f a b).isCallable = false := by
  unfold arithmetic? at found
  split at found <;> cases found <;> rfl

lemma isCallable_sum {left right value : Value} (yields : left.sum right = .ok value) :
    value.isCallable = false := by
  unfold sum at yields
  split at yields <;> cases yields <;> rfl

lemma isCallable_combined {operator : Kind} {left right value : Value}
    (yields : left.combined operator right = .ok value) : value.isCallable = false := by
  unfold combined at yields
  split at yields
  · cases yields
    rfl
  · cases yields
    rfl
  · exact isCallable_sum yields
  · split at yields
    · cases yields
    · next f found =>
        split at yields
        · cases yields
          exact isCallable_arithmetic found _ _
        · cases yields

end Value

/-! ## What the notes tell -/

/-- The identity of the function that a note tells of. -/
def Note.identity? : Note → Option Identity
  | produced function => function.identity?
  | meet _ _ _ => none

/-- The notes tell of the production of a value, if it is a function. -/
def Value.ProducedIn (log : List Note) (value : Value) : Prop :=
  value.isCallable = true → Note.produced value ∈ log

/-- The notes tell of the production of what a statement returns. -/
def Completion.ProducedIn (log : List Note) : Completion → Prop
  | .normal => True
  | .returned value => value.ProducedIn log

namespace Value.ProducedIn

variable {log : List Note} {value : Value}

lemma of_not_callable (plain : value.isCallable = false) : value.ProducedIn log :=
  fun callable => absurd (plain.symm.trans callable) Bool.false_ne_true

lemma nil : Value.nil.ProducedIn log := of_not_callable rfl

/-- More notes tell no less. -/
lemma append (known : value.ProducedIn log) (notes : List Note) : value.ProducedIn (log ++ notes) :=
  fun callable => List.mem_append_left notes (known callable)

end Value.ProducedIn

namespace Note

/-- **No two notes tell of the production of one identity**, and functions are produced before they
meet. -/
structure Coherent (log : List Note) : Prop where
  distinct : (log.filterMap identity?).Nodup
  before : ∀ (m : Nat) (operator : Token) (left right : Value),
    log[m]? = some (.meet operator left right) →
      left.ProducedIn (log.take m) ∧ right.ProducedIn (log.take m)

namespace Coherent

variable {log : List Note}

lemma nil : Coherent [] := ⟨List.nodup_nil, fun _ _ _ _ found => by simp at found⟩

/-- One note more, which gives an identity that was free or tells of functions that are known. -/
lemma snoc (coherent : Coherent log) {note : Note}
    (free : ∀ identity, note.identity? = some identity → ∀ old ∈ log, old.identity? ≠ some identity)
    (known : ∀ operator left right, note = .meet operator left right →
      left.ProducedIn log ∧ right.ProducedIn log) : Coherent (log ++ [note]) := by
  constructor
  · rw [List.filterMap_append, List.nodup_append]
    refine ⟨coherent.distinct, ?_, ?_⟩
    · cases given : note.identity? <;> simp [given]
    · intro one old other new same
      obtain ⟨earlier, mem, earlierOne⟩ := List.mem_filterMap.mp old
      have noteOther : note.identity? = some other := by simpa using new
      exact free other noteOther earlier mem (same ▸ earlierOne)
  · intro m operator left right found
    rcases Nat.lt_or_ge m log.length with inside | behind
    · rw [List.getElem?_append_left inside] at found
      rw [List.take_append_of_le_length inside.le]
      exact coherent.before m operator left right found
    · obtain rfl : m = log.length := by
        have bounded := (List.getElem?_eq_some_iff.mp found).1
        rw [List.length_append, List.length_singleton] at bounded
        omega
      rw [List.take_left]
      exact known operator left right (by simpa using found)

/-- **One identity, one moment.** -/
lemma moment_unique (coherent : Coherent log) {p q : Nat} {left right : Value}
    (first : log[p]? = some (.produced left)) (second : log[q]? = some (.produced right))
    (callable : left.isCallable = true) (same : left.identity? = right.identity?) : p = q := by
  -- two such notes would put one identity into the list of identities twice
  have apart := List.pairwise_filterMap.mp coherent.distinct
  obtain ⟨identity, given⟩ := Option.isSome_iff_exists.mp (left.isSome_identity?.trans callable)
  obtain ⟨firstBound, firstNote⟩ := List.getElem?_eq_some_iff.mp first
  obtain ⟨secondBound, secondNote⟩ := List.getElem?_eq_some_iff.mp second
  have leftGiven : (log[p]).identity? = some identity := by rw [firstNote]; exact given
  have rightGiven : (log[q]).identity? = some identity := by
    rw [secondNote]
    exact same.symm.trans given
  rcases Nat.lt_trichotomy p q with less | equal | greater
  · exact absurd rfl
      (List.pairwise_iff_getElem.mp apart p q firstBound secondBound less _ leftGiven _ rightGiven)
  · exact equal
  · exact absurd rfl
      (List.pairwise_iff_getElem.mp apart q p secondBound firstBound greater _ rightGiven _ leftGiven)

end Coherent

/-- A value was produced at this moment and at no other. -/
def ProducedAt (log : List Note) (value : Value) (p : Nat) : Prop :=
  ∀ i, log[i]? = some (.produced value) ↔ i = p

/-- **Functions that meet were produced before, each at one moment, and they are equal exactly if it is
the same moment.** -/
lemma Coherent.meeting {log : List Note} (coherent : Coherent log) {m : Nat} {operator : Token}
    {left right : Value} (found : log[m]? = some (.meet operator left right))
    (leftCallable : left.isCallable = true) (rightCallable : right.isCallable = true) :
    ∃ p < m, ∃ q < m, ProducedAt log left p ∧ ProducedAt log right q ∧
      left.equals right = decide (p = q) := by
  -- what is known when the functions meet was noted at one place in front of the meeting
  have origin : ∀ {value : Value}, value.ProducedIn (log.take m) → value.isCallable = true →
      ∃ p < m, ProducedAt log value p := by
    intro value known callable
    obtain ⟨p, produced⟩ := List.mem_iff_getElem?.mp (known callable)
    rw [List.getElem?_take] at produced
    split_ifs at produced with earlier
    exact ⟨p, earlier, fun i => ⟨fun other => coherent.moment_unique other produced callable rfl,
      fun same => same ▸ produced⟩⟩
  obtain ⟨leftKnown, rightKnown⟩ := coherent.before m operator left right found
  obtain ⟨p, leftEarlier, leftAt⟩ := origin leftKnown leftCallable
  obtain ⟨q, rightEarlier, rightAt⟩ := origin rightKnown rightCallable
  refine ⟨p, leftEarlier, q, rightEarlier, leftAt, rightAt, ?_⟩
  rw [Value.equals_eq_decide leftCallable rightCallable, decide_eq_decide]
  constructor
  · exact coherent.moment_unique ((leftAt p).mpr rfl) ((rightAt q).mpr rfl) leftCallable
  · intro same
    have both := ((leftAt p).mpr rfl).symm.trans ((rightAt p).mpr same)
    injection both with both
    injection both with both
    rw [both]

end Note

/-! ## The invariant -/

/-- A function of the host that makes no functions: it hands on those it was given, at most. -/
def Native.Honest : Native → Prop
  | .clock => True
  | .host _ apply => ∀ arguments value, apply arguments = .ok value → value.isCallable = true →
      value ∈ arguments

/-- An identity that has been given away. -/
def Machine.Issued (machine : Machine) : Identity → Prop
  | .declaration event => event < machine.events
  | .registration index => index < machine.natives.length

/-- **The notes tell where all functions come from that the scopes hold**, and the identities they tell
of have been given away. -/
structure Machine.Recorded (log : List Note) (machine : Machine) : Prop where
  coherent : Note.Coherent log
  issued : ∀ note ∈ log, ∀ identity, note.identity? = some identity → machine.Issued identity
  honest : ∀ native ∈ machine.natives, native.Honest
  values : ∀ {i : Nat} {name : String} {value : Value},
    machine.store.local? i name = some value → value.ProducedIn log

namespace Machine.Recorded

variable {log : List Note} {machine after : Machine}

/-- Only the scopes, the host and the number of declarations matter. -/
lemma of_eq (recorded : machine.Recorded log) (store : after.store = machine.store)
    (events : after.events = machine.events) (natives : after.natives = machine.natives) :
    after.Recorded log := by
  refine ⟨recorded.coherent, ?_, natives ▸ recorded.honest, store ▸ recorded.values⟩
  intro note mem identity given
  have old := recorded.issued note mem identity given
  cases identity with
  | declaration event => exact old.trans_eq events.symm
  | registration index => exact old.trans_eq (congrArg List.length natives.symm)

lemma define (recorded : machine.Recorded log) (scope : Nat) (name : String) {value : Value}
    (known : value.ProducedIn log) :
    ({ machine with store := machine.store.define scope name value } : Machine).Recorded log := by
  refine ⟨recorded.coherent, recorded.issued, recorded.honest, fun held => ?_⟩
  rcases Store.local?_define_cases held with rfl | held
  · exact known
  · exact recorded.values held

/-- Known functions meet. -/
lemma meet (recorded : machine.Recorded log) (operator : Token) {left right : Value}
    (leftKnown : left.ProducedIn log) (rightKnown : right.ProducedIn log) :
    machine.Recorded (log ++ [.meet operator left right]) := by
  refine ⟨recorded.coherent.snoc (fun _ given => by cases given) ?_, ?_, recorded.honest,
    fun held => (recorded.values held).append _⟩
  · rintro _ _ _ ⟨⟩
    exact ⟨leftKnown, rightKnown⟩
  · intro note mem identity given
    rcases List.mem_append.mp mem with old | new
    · exact recorded.issued note old identity given
    · cases List.mem_singleton.mp new
      cases given

/-- **A function is produced and bound to a name**, and its identity was free before. -/
lemma produce (recorded : machine.Recorded log) {function : Value} {identity : Identity}
    (identified : function.identity? = some identity) (free : ¬ machine.Issued identity)
    (issued : ∀ other, machine.Issued other ∨ other = identity → after.Issued other)
    (honest : ∀ native ∈ after.natives, native.Honest) {scope : Nat} {name : String}
    (store : after.store = machine.store.define scope name function) :
    after.Recorded (log ++ [.produced function]) := by
  refine ⟨recorded.coherent.snoc ?_ (fun _ _ _ same => by cases same), ?_, honest, ?_⟩
  · -- an identity in the notes has been given away, and this one has not
    intro other given note mem told
    obtain rfl := Option.some.inj (identified.symm.trans given)
    exact free (recorded.issued note mem identity told)
  · intro note mem other given
    rcases List.mem_append.mp mem with old | new
    · exact issued other (.inl (recorded.issued note old other given))
    · cases List.mem_singleton.mp new
      exact issued other (.inr (Option.some.inj (given.symm.trans identified)))
  · intro i other value held
    rw [store] at held
    rcases Store.local?_define_cases held with rfl | held
    · exact fun _ => List.mem_append_right log (List.mem_singleton_self _)
    · exact (recorded.values held).append _

/-- The machine behind a declaration. -/
lemma declare (recorded : machine.Recorded log) (name : Token) (parameters : List Token)
    (body : List Stmt) :
    ({ machine with
        store := machine.store.define machine.current name.lexeme
          (machine.function name parameters body)
        events := machine.events + 1 } : Machine).Recorded
      (log ++ [.produced (machine.function name parameters body)]) := by
  have identified : (machine.function name parameters body).identity? =
      some (.declaration machine.events) := rfl
  refine recorded.produce identified (lt_irrefl _) ?_ recorded.honest rfl
  rintro other (old | rfl)
  · cases other with
    | declaration event => exact Nat.lt_succ_of_lt old
    | registration index => exact old
  · exact Nat.lt_succ_self _

/-- The machine behind a registration. -/
lemma register (recorded : machine.Recorded log) (name : String) {native : Native}
    (honest : native.Honest) : (machine.register name native).Recorded
      (log ++ [.produced (.native machine.natives.length native.arity)]) := by
  have identified : (Value.native machine.natives.length native.arity).identity? =
      some (.registration machine.natives.length) := rfl
  refine recorded.produce identified (lt_irrefl _) ?_ ?_ rfl
  · rintro other (old | rfl)
    · cases other with
      | declaration event => exact old
      | registration index =>
          exact old.trans_le (by simp [Machine.register])
    · simp [Machine.register, Machine.Issued]
  · intro other mem
    rcases List.mem_append.mp mem with old | new
    · exact recorded.honest other old
    · exact List.mem_singleton.mp new ▸ honest

/-- At the start there is nothing but the clock. -/
lemma start (sink : Sink) (clock : Nat → Float) :
    (Machine.start sink clock).Recorded [.produced (.native 0 0)] := by
  have bare : Machine.Recorded []
      ⟨Store.empty.root.2, Machine.globals, 0, [], clock, 0, sink⟩ := by
    refine ⟨.nil, by simp, by simp, fun held => ?_⟩
    rw [Store.local?_root_empty] at held
    cases held
  have honest : Native.clock.Honest := trivial
  exact bare.register "clock" honest

end Machine.Recorded

/-! ## Steps -/

/-- What a step comes to when the notes tell of all functions: they still do, and they tell of what is
yielded. -/
def Outcome.Recorded {α : Type} (Q : List Note → α → Prop) (log : List Note) : Outcome α → Prop
  | .done value after => after.Recorded log ∧ Q log value
  | .failed _ after => after.Recorded log
  | .exhausted => Note.Coherent log

namespace Annotated

variable {α β : Type}

/-- A step that comes to this, its own notes included, wherever the notes tell of all functions. -/
def Records (Q : List Note → α → Prop) (log : List Note) (step : Annotated α) : Prop :=
  ∀ machine : Machine, machine.Recorded log →
    (step machine).outcome.Recorded Q (log ++ (step machine).notes)

namespace Records

variable {P : List Note → α → Prop} {Q : List Note → β → Prop} {log : List Note}

/-! ### Putting steps together -/

lemma pure {value : α} (given : P log value) : Records P log (Pure.pure value) := by
  intro machine recorded
  show machine.Recorded (log ++ []) ∧ P (log ++ []) value
  rw [List.append_nil]
  exact ⟨recorded, given⟩

/-- A step of which nothing is noted. -/
lemma lift {step : Action α}
    (given : ∀ machine : Machine, machine.Recorded log → (step machine).Recorded P log) :
    Records P log (Noting.lift step) := by
  intro machine recorded
  show (step machine).Recorded P (log ++ [])
  rw [List.append_nil]
  exact given machine recorded

lemma exhausted : Records P log (Noting.lift Action.exhausted) :=
  lift fun _ recorded => recorded.coherent

lemma bind {step : Annotated α} {next : α → Annotated β} (first : Records P log step)
    (second : ∀ notes value, P (log ++ notes) value → Records Q (log ++ notes) (next value)) :
    Records Q log (step >>= next) := by
  intro machine recorded
  have one := first machine recorded
  show (Noting.bind step next machine).outcome.Recorded Q
    (log ++ (Noting.bind step next machine).notes)
  unfold Noting.bind
  rcases found : step machine with ⟨notes, outcome⟩
  rw [found] at one
  cases outcome with
  | done value after =>
      have two := second notes value one.2 after one.1
      rwa [List.append_assoc] at two
  | failed fault after => exact one
  | exhausted => exact one

lemma within {step : Annotated α} (inner : Records P log step) (scope : Nat) :
    Records P log (Noting.within scope step) := by
  intro machine recorded
  have inside := inner { machine with current := scope } (recorded.of_eq rfl rfl rfl)
  simp only [Noting.within, Action.within]
  cases found : (step { machine with current := scope }).outcome with
  | done value after =>
      rw [found] at inside
      exact ⟨inside.1.of_eq rfl rfl rfl, inside.2⟩
  | failed fault after =>
      rw [found] at inside
      exact Machine.Recorded.of_eq inside rfl rfl rfl
  | exhausted =>
      rw [found] at inside
      exact inside

/-! ### Steps that touch the machine -/

/-- A point at which nothing is noted. -/
lemma silent {point : Point} (nothing : ∀ machine, Note.ofPoint point machine = [])
    {step : Annotated α} (inner : Records P log step) : Records P log (steps.around point step) := by
  intro machine recorded
  show (step machine).outcome.Recorded P (log ++ (Note.ofPoint point machine ++ (step machine).notes))
  rw [nothing]
  exact inner machine recorded

/-- Known values meet. -/
lemma meets (operator : Token) {left right : Value} (leftKnown : left.ProducedIn log)
    (rightKnown : right.ProducedIn log) {step : Annotated α}
    (inner : Records P (log ++ [.meet operator left right]) step) :
    Records P log (steps.around (.meets operator left right) step) := by
  intro machine recorded
  have behind := inner machine (recorded.meet operator leftKnown rightKnown)
  rwa [List.append_assoc] at behind

lemma declare (name : Token) (parameters : List Token) (body : List Stmt) :
    Records (fun _ _ => True) log (steps.around (.declares name parameters body)
      (Noting.lift (Action.declare name parameters body))) :=
  fun _ recorded => ⟨recorded.declare name parameters body, trivial⟩

lemma fail (error : RuntimeError) (place : Token) :
    Records P log (Noting.lift (Action.fail error place)) := lift fun _ recorded => recorded

/-- An operator yields no function. -/
lemma ofExcept (place : Token) {result : Except RuntimeError Value}
    (plain : ∀ value, result = .ok value → value.isCallable = false) :
    Records Value.ProducedIn log (Noting.lift (Action.ofExcept place result)) := by
  cases result with
  | ok value => exact lift fun _ recorded => ⟨recorded, .of_not_callable (plain value rfl)⟩
  | error error => exact fail error place

lemma look (name : Token) (hops : Option Nat) :
    Records Value.ProducedIn log (Noting.lift (Action.look name hops)) := by
  refine lift fun machine recorded => ?_
  simp only [Action.look]
  split
  · next value found =>
      refine ⟨recorded, ?_⟩
      cases hops with
      | none =>
          obtain ⟨scope, held⟩ := Store.exists_local?_of_get? found
          exact recorded.values held
      | some distance =>
          obtain ⟨scope, _, held⟩ := Option.bind_eq_some_iff.mp found
          exact recorded.values held
  · exact recorded

lemma assign (name : Token) (hops : Option Nat) {value : Value} (known : value.ProducedIn log) :
    Records (fun _ _ => True) log (Noting.lift (Action.assign name hops value)) := by
  refine lift fun machine recorded => ?_
  simp only [Action.assign]
  split
  · exact ⟨recorded.define _ _ known, trivial⟩
  · exact recorded

lemma define (name : Token) {value : Value} (known : value.ProducedIn log) :
    Records (fun _ _ => True) log (Noting.lift (Action.define name value)) :=
  lift fun _ recorded => ⟨recorded.define _ _ known, trivial⟩

lemma openScope (outer : Nat) :
    Records (fun _ _ => True) log (Noting.lift (Action.openScope outer)) := by
  refine lift fun machine recorded => ⟨⟨recorded.coherent, recorded.issued, recorded.honest,
    fun {i name value} held => ?_⟩, trivial⟩
  have same := Store.local?_child machine.store outer i name
  exact recorded.values (same ▸ held)

lemma current : Records (fun _ _ => True) log (Noting.lift Action.current) :=
  lift fun _ recorded => ⟨recorded, trivial⟩

lemma bindAll (scope : Nat) (parameters : List Token) {arguments : List Value}
    (known : ∀ argument ∈ arguments, argument.ProducedIn log) :
    Records (fun _ _ => True) log (Noting.lift (Action.bindAll scope parameters arguments)) := by
  refine lift fun machine recorded => ⟨?_, trivial⟩
  have bound : ∀ pair ∈ parameters.zip arguments, pair.2.ProducedIn log :=
    fun pair mem => known pair.2 (List.of_mem_zip mem).2
  generalize parameters.zip arguments = pairs at bound
  induction pairs generalizing machine with
  | nil => exact recorded
  | cons pair others ih =>
      obtain ⟨first, rest⟩ := List.forall_mem_cons.mp bound
      exact ih _ (recorded.define scope pair.1.lexeme first) rest

lemma print (text : String) : Records (fun _ _ => True) log (Noting.lift (Action.print text)) := by
  refine lift fun machine recorded => ?_
  simp only [Action.print]
  split
  · exact ⟨recorded.of_eq rfl rfl rfl, trivial⟩
  · exact recorded.of_eq rfl rfl rfl

/-- The host makes no functions, so what it yields was given to it. -/
lemma callNative (index : Nat) (paren : Token) {arguments : List Value}
    (known : ∀ argument ∈ arguments, argument.ProducedIn log) :
    Records Value.ProducedIn log (Noting.lift (Action.callNative index paren arguments)) := by
  refine lift fun machine recorded => ?_
  simp only [Action.callNative]
  split
  · exact ⟨recorded.of_eq rfl rfl rfl, .of_not_callable rfl⟩
  · next arity apply found =>
      split
      · next value yields =>
          have honest := recorded.honest _ (List.mem_of_getElem? found)
          exact ⟨recorded, fun callable =>
            known value (honest arguments value yields callable) callable⟩
      · exact recorded
  · exact recorded

end Records

/-! ## Runs -/

/-- With `n` steps allowed, the notes tell of all functions. -/
structure RecordedRun (n : Nat) : Prop where
  evaluate : ∀ log value, Records Value.ProducedIn log (Annotated.steps.evaluate n value)
  evaluateAll : ∀ log values,
    Records (fun log given => ∀ value ∈ given, value.ProducedIn log) log
      (Annotated.steps.evaluateAll n values)
  call : ∀ log callee paren arguments, (∀ argument ∈ arguments, argument.ProducedIn log) →
    Records Value.ProducedIn log (Annotated.steps.call n callee paren arguments)
  execute : ∀ log stmt, Records Completion.ProducedIn log (Annotated.steps.execute n stmt)
  evaluateOr : ∀ log value, Records Value.ProducedIn log (Annotated.steps.evaluateOr n value)
  executeAll : ∀ log stmts, Records Completion.ProducedIn log (Annotated.steps.executeAll n stmts)

namespace RecordedRun

variable {n : Nat}

lemma evaluate_succ (ih : RecordedRun n) (log : List Note) (value : Expr) :
    Records Value.ProducedIn log (Annotated.steps.evaluate (n + 1) value) := by
  refine .silent (fun _ => rfl) ?_
  cases value with
  | literal constant => exact .pure (.of_not_callable constant.isCallable_value)
  | group inner => exact ih.evaluate log inner
  | unary operator operand =>
      exact (ih.evaluate log operand).bind fun _ _ _ =>
        .ofExcept operator fun _ => Value.isCallable_prefixed
  | binary left operator right =>
      -- what the right operand produces does not take away what is known of the left one
      exact (ih.evaluate log left).bind fun _ _ one => (ih.evaluate _ right).bind fun later _ two =>
        .meets operator (one.append later) two (.ofExcept operator fun _ => Value.isCallable_combined)
  | logical left operator right =>
      refine (ih.evaluate log left).bind fun notes value known => ?_
      split
      · exact .pure known
      · exact ih.evaluate _ right
  | «variable» name hops => exact .look name hops
  | assign name value hops =>
      exact (ih.evaluate log value).bind fun _ _ known =>
        (Records.assign name hops known).bind fun later _ _ => .pure (known.append later)
  | call callee paren arguments =>
      exact (ih.evaluate log callee).bind fun _ _ _ =>
        (ih.evaluateAll _ arguments).bind fun _ _ known => ih.call _ _ paren _ known

lemma evaluateAll_succ (ih : RecordedRun n) (log : List Note) (values : List Expr) :
    Records (fun log given => ∀ value ∈ given, value.ProducedIn log) log
      (Annotated.steps.evaluateAll (n + 1) values) := by
  cases values with
  | nil => exact .pure (by simp)
  | cons first others =>
      exact (ih.evaluate log first).bind fun _ _ one => (ih.evaluateAll _ others).bind
        fun later _ more => .pure (List.forall_mem_cons.mpr ⟨one.append later, more⟩)

lemma call_succ (ih : RecordedRun n) (log : List Note) (callee : Value) (paren : Token)
    (arguments : List Value) (known : ∀ argument ∈ arguments, argument.ProducedIn log) :
    Records Value.ProducedIn log (Annotated.steps.call (n + 1) callee paren arguments) := by
  cases callee with
  | function event closure =>
      simp only [Steps.call, Steps.ofCall]
      split
      · refine (Records.openScope closure.scope).bind fun notes scope _ => ?_
        refine (Records.bindAll scope closure.parameters
          fun argument mem => (known argument mem).append notes).bind fun later _ _ => ?_
        refine ((ih.executeAll _ closure.body).within scope).bind fun last completion found => ?_
        cases completion with
        | normal => exact .pure .nil
        | returned value => exact .pure found
      · exact .fail _ _
  | native index arity =>
      simp only [Steps.call, Steps.ofCall]
      split
      · exact .callNative index paren known
      · exact .fail _ _
  | nil => exact .fail _ _
  | bool value => exact .fail _ _
  | number value => exact .fail _ _
  | text value => exact .fail _ _

lemma execute_succ (ih : RecordedRun n) (log : List Note) (stmt : Stmt) :
    Records Completion.ProducedIn log (Annotated.steps.execute (n + 1) stmt) := by
  refine .silent (fun _ => rfl) ?_
  cases stmt with
  | expression value => exact (ih.evaluate log value).bind fun _ _ _ => .pure trivial
  | print value =>
      exact (ih.evaluate log value).bind fun _ _ _ =>
        (Records.print _).bind fun _ _ _ => .pure trivial
  | «variable» name initializer =>
      exact (ih.evaluateOr log initializer).bind fun _ _ known =>
        (Records.define name known).bind fun _ _ _ => .pure trivial
  | block body =>
      exact Records.current.bind fun _ outer _ => (Records.openScope outer).bind fun _ scope _ =>
        (ih.executeAll _ body).within scope
  | branch condition consequent alternative =>
      refine (ih.evaluate log condition).bind fun notes value _ => ?_
      split
      · exact ih.execute _ consequent
      · cases alternative with
        | none => exact .pure trivial
        | some alternative => exact ih.execute _ alternative
  | loop condition body =>
      refine (ih.evaluate log condition).bind fun notes value _ => ?_
      split
      · refine (ih.execute _ body).bind fun later completion found => ?_
        cases completion with
        | normal => exact ih.execute _ (.loop condition body)
        | returned value => exact .pure found
      · exact .pure trivial
  | function name parameters body =>
      exact (Records.declare name parameters body).bind fun _ _ _ => .pure trivial
  | return_ keyword value => exact (ih.evaluateOr log value).bind fun _ _ known => .pure known

lemma evaluateOr_succ (ih : RecordedRun n) (log : List Note) (value : Option Expr) :
    Records Value.ProducedIn log (Annotated.steps.evaluateOr (n + 1) value) := by
  cases value with
  | none => exact .pure .nil
  | some value => exact ih.evaluate log value

lemma executeAll_succ (ih : RecordedRun n) (log : List Note) (stmts : List Stmt) :
    Records Completion.ProducedIn log (Annotated.steps.executeAll (n + 1) stmts) := by
  cases stmts with
  | nil => exact .pure trivial
  | cons first others =>
      refine (ih.execute log first).bind fun notes completion found => ?_
      cases completion with
      | normal => exact ih.executeAll _ others
      | returned value => exact .pure found

end RecordedRun

/-- **The notes tell of all functions**, with every allowance. -/
theorem records (n : Nat) : RecordedRun n := by
  induction n with
  | zero => exact ⟨fun _ _ => .exhausted, fun _ _ => .exhausted, fun _ _ _ _ _ => .exhausted,
      fun _ _ => .exhausted, fun _ _ => .exhausted, fun _ _ => .exhausted⟩
  | succ n ih => exact ⟨ih.evaluate_succ, ih.evaluateAll_succ, ih.call_succ, ih.execute_succ,
      ih.evaluateOr_succ, ih.executeAll_succ⟩

end Annotated

end LoxLang
