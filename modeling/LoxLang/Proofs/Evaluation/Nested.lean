import Mathlib
import LoxLang.Proofs.Evaluation.Joined
import LoxLang.Proofs.Evaluation.Trace

/-!
# Returns end the innermost call

A return is not a step like others: from where it is reached, nothing more may be begun until the call
around it has been left, and then the next thing to happen is that this very call, and not one of its
callers, ends with the value of the return.  The moments of a run are read by a small machine that
allows exactly this.

* `Activity` — the calls that are active, and the value that is being returned, if any.
* `Activity.Step` — which moments may come when, and what they change.
* `Activity.Runs` — moments in a row, during which some calls stay active throughout.
* `Traced.Nests` — a step whose moments run in this way, also if it fails.
* **`Traced.nested`** — everything that can be run nests: expressions never end in a return, statements
  only inside of functions, and a call yields what its body returned.
* **`Activity.Runs.returned`** — what comes behind a return.
-/

namespace LoxLang

/-- What a program is inside of. -/
structure Activity where
  /-- The numbers of the functions whose calls are active, the innermost first. -/
  calls : List Nat
  /-- The value that a return takes out of the innermost call. -/
  leaving : Option Value

namespace Activity

/-- Outside of all functions. -/
def outside : Activity := ⟨[], none⟩

/-- What a moment changes.  Only while nothing is returned may anything begin; a return needs an active
call; and a call is left with the value that is returned, or with nil if its body came to its end. -/
inductive Step : Activity → Moment → Activity → Prop where
  | expression {calls : List Nat} {value : Expr} : Step ⟨calls, none⟩ (.expression value) ⟨calls, none⟩
  | statement {calls : List Nat} {stmt : Stmt} : Step ⟨calls, none⟩ (.statement stmt) ⟨calls, none⟩
  | enters {calls : List Nat} {event : Nat} : Step ⟨calls, none⟩ (.enters event) ⟨event :: calls, none⟩
  | returns {calls : List Nat} {event : Nat} {value : Value} :
      Step ⟨event :: calls, none⟩ (.returns value) ⟨event :: calls, some value⟩
  | ends {calls : List Nat} {event : Nat} :
      Step ⟨event :: calls, none⟩ (.leaves event .nil) ⟨calls, none⟩
  | leaves {calls : List Nat} {event : Nat} {value : Value} :
      Step ⟨event :: calls, some value⟩ (.leaves event value) ⟨calls, none⟩

/-- Moments in a row, during which the calls of `base` stay active. -/
inductive Runs (base : List Nat) : Activity → List Moment → Activity → Prop where
  | nil {activity : Activity} : Runs base activity [] activity
  | cons {first second last : Activity} {moment : Moment} {moments : List Moment} :
      Step first moment second → base <:+ second.calls → Runs base second moments last →
      Runs base first (moment :: moments) last

namespace Runs

variable {base : List Nat} {first second last : Activity} {front behind : List Moment}

lemma append (one : Runs base first front second) (two : Runs base second behind last) :
    Runs base first (front ++ behind) last := by
  induction one with
  | nil => exact two
  | cons step active _ ih => exact .cons step active (ih two)

lemma single {moment : Moment} (step : Step first moment second) (active : base <:+ second.calls) :
    Runs base first [moment] second := .cons step active .nil

/-- Fewer calls stay active as well. -/
lemma mono {fewer : List Nat} (runs : Runs base first front last) (fewer_base : fewer <:+ base) :
    Runs fewer first front last := by
  induction runs with
  | nil => exact .nil
  | cons step active _ ih => exact .cons step (fewer_base.trans active) ih

lemma split (runs : Runs base first (front ++ behind) last) :
    ∃ second, Runs base first front second ∧ Runs base second behind last := by
  induction front generalizing first with
  | nil => exact ⟨first, .nil, runs⟩
  | cons moment front ih =>
      cases runs with
      | cons step active rest =>
          obtain ⟨second, one, two⟩ := ih rest
          exact ⟨second, .cons step active one, two⟩

/-- **Behind a return the innermost call ends with its value.**  Nothing else comes before that, and the
calls around it stay active. -/
lemma returned {value : Value} (runs : Runs base first (front ++ .returns value :: behind) last)
    (done : last.leaving = none) : ∃ event calls rest, Runs base first front ⟨event :: calls, none⟩ ∧
      behind = .leaves event value :: rest ∧ Runs base ⟨calls, none⟩ rest last := by
  obtain ⟨second, one, two⟩ := runs.split
  cases two with
  | cons step active two =>
      cases step with
      | @returns calls event =>
          cases two with
          | nil => cases done
          | cons step active two =>
              cases step with
              | leaves => exact ⟨event, calls, _, one, rfl, two⟩

end Runs

end Activity

/-- What a return takes out of a call. -/
def Completion.leaving : Completion → Option Value
  | normal => none
  | returned value => some value

/-- How a step inside of `calls` leaves the activity.  A failure never comes while a value is returned. -/
def Outcome.Leaves {α : Type} (calls : List Nat) (leaving : α → Option Value) (last : Activity) :
    Outcome α → Prop
  | .done value _ => last = ⟨calls, leaving value⟩
  | .failed _ _ => last.leaving = none
  | .exhausted => last.leaving = none

/-- A step inside of `calls` runs while these are active, and is inside of them again when it is done. -/
def Noted.Nested {α : Type} (calls : List Nat) (leaving : α → Option Value)
    (trace : Noted Moment α) : Prop :=
  ∃ last, Activity.Runs calls ⟨calls, none⟩ trace.notes last ∧ trace.outcome.Leaves calls leaving last

/-- A call that is done consists of its body, and yields what the body returned, or nil. -/
def Noted.Encloses (calls : List Nat) (event : Nat) (trace : Noted Moment Value) : Prop :=
  ∀ value after, trace.outcome = .done value after → ∃ inner leaving,
    trace.notes = .enters event :: (inner ++ [.leaves event value]) ∧
    Activity.Runs (event :: calls) ⟨event :: calls, none⟩ inner ⟨event :: calls, leaving⟩ ∧
    value = leaving.getD .nil

namespace Traced

variable {α β : Type} {calls : List Nat}

/-- The step nests on every machine. -/
def Nests (calls : List Nat) (leaving : α → Option Value) (step : Traced α) : Prop :=
  ∀ machine, (step machine).Nested calls leaving

/-- A step that never ends in a return. -/
abbrev Plain (calls : List Nat) (step : Traced α) : Prop := step.Nests calls fun _ => none

/-- A step that may end in a return. -/
abbrev Returning (calls : List Nat) (step : Traced Completion) : Prop :=
  step.Nests calls Completion.leaving

namespace Nests

variable {leaving : α → Option Value}

lemma lift (step : Action α) : Plain calls (Noting.lift step) := by
  intro machine
  refine ⟨⟨calls, none⟩, .nil, ?_⟩
  show (step machine).Leaves calls _ _
  cases step machine with
  | done value after => rfl
  | failed fault after => rfl
  | exhausted => rfl

lemma exhausted : Nests calls leaving (Noting.lift Action.exhausted) :=
  fun _ => ⟨⟨calls, none⟩, .nil, rfl⟩

lemma pure (value : α) (stays : leaving value = none) : Nests calls leaving (Pure.pure value) :=
  fun _ => ⟨⟨calls, none⟩, .nil, by rw [← stays]; rfl⟩

/-- One step after another, the first of which does not end in a return. -/
lemma bind {step : Traced β} {next : β → Traced α} (first : Plain calls step)
    (second : ∀ value, Nests calls leaving (next value)) : Nests calls leaving (step >>= next) := by
  intro machine
  obtain ⟨last, runs, leaves⟩ := first machine
  show (Noting.bind step next machine).Nested calls leaving
  unfold Noting.bind
  generalize step machine = trace at runs leaves
  rcases trace with ⟨moments, outcome⟩
  cases outcome with
  | done value after =>
      obtain rfl : last = ⟨calls, none⟩ := leaves
      obtain ⟨last, later, leaves⟩ := second value after
      exact ⟨last, runs.append later, leaves⟩
  | failed fault after => exact ⟨last, runs, leaves⟩
  | exhausted => exact ⟨last, runs, leaves⟩

/-- Where the first step ends in a return, the return is passed on. -/
lemma bind_completion {step : Traced Completion} {next : Completion → Traced Completion}
    (first : Returning calls step) (second : Returning calls (next .normal))
    (passes : ∀ value, next (.returned value) = Pure.pure (.returned value)) :
    Returning calls (step >>= next) := by
  intro machine
  obtain ⟨last, runs, leaves⟩ := first machine
  show (Noting.bind step next machine).Nested calls _
  unfold Noting.bind
  generalize step machine = trace at runs leaves
  rcases trace with ⟨moments, outcome⟩
  cases outcome with
  | done completion after =>
      obtain rfl : last = ⟨calls, completion.leaving⟩ := leaves
      cases completion with
      | normal =>
          obtain ⟨last, later, leaves⟩ := second after
          exact ⟨last, runs.append later, leaves⟩
      | returned value =>
          simp only [passes]
          exact ⟨⟨calls, some value⟩, runs.append .nil, rfl⟩
  | failed fault after => exact ⟨last, runs, leaves⟩
  | exhausted => exact ⟨last, runs, leaves⟩

/-- A moment that changes nothing. -/
lemma begins {point : Point} {moment : Moment} {step : Traced α}
    (here : Moment.ofPoint point = [moment])
    (begun : Activity.Step ⟨calls, none⟩ moment ⟨calls, none⟩) (rest : Nests calls leaving step) :
    Nests calls leaving (steps.around point step) := by
  intro machine
  obtain ⟨last, runs, leaves⟩ := rest machine
  refine ⟨last, ?_, leaves⟩
  show Activity.Runs calls ⟨calls, none⟩ (Moment.ofPoint point ++ (step machine).notes) last
  rw [here]
  exact .cons begun (List.suffix_refl _) runs

/-- A return inside of a call. -/
lemma returns (value : Value) (inside : calls ≠ []) :
    Returning calls (steps.around (.returns value) (Pure.pure (.returned value))) := by
  intro machine
  obtain ⟨event, others, rfl⟩ := List.exists_cons_of_ne_nil inside
  exact ⟨⟨event :: others, some value⟩, .single .returns (List.suffix_refl _), rfl⟩

lemma within {step : Traced α} (inner : Nests calls leaving step) (scope : Nat) :
    Nests calls leaving (Noting.within scope step) := by
  intro machine
  obtain ⟨last, runs, leaves⟩ := inner { machine with current := scope }
  refine ⟨last, runs, ?_⟩
  simp only [Noting.within, Action.within]
  cases found : (step { machine with current := scope }).outcome with
  | done value after => rw [found] at leaves; exact leaves
  | failed fault after => rw [found] at leaves; exact leaves
  | exhausted => exact by rw [found] at leaves; exact leaves

end Nests

/-! ## Calls -/

/-- The end of a call whose body has ended. -/
def left (event : Nat) : Completion → Traced Value
  | .normal => steps.around (.leaves event .nil) (return .nil)
  | .returned value => steps.around (.leaves event value) (return value)

/-- The body of a call, between the first moment of the call and its last. -/
def enclosed (event : Nat) (body : Traced Completion) : Traced Value :=
  steps.around (.enters event) do left event (← body)

variable {event : Nat} {body : Traced Completion}

/-- A call ends with the value of its body, or fails with its body. -/
lemma enclosed_cases (nests : Returning (event :: calls) body) (machine : Machine) :
    (∃ inner leaving after,
      Activity.Runs (event :: calls) ⟨event :: calls, none⟩ inner ⟨event :: calls, leaving⟩ ∧
      enclosed event body machine = ⟨.enters event :: (inner ++ [.leaves event (leaving.getD .nil)]),
        .done (leaving.getD .nil) after⟩) ∨
    ∃ inner last outcome, Activity.Runs (event :: calls) ⟨event :: calls, none⟩ inner last ∧
      last.leaving = none ∧ (∀ value after, outcome ≠ .done value after) ∧
      enclosed event body machine = ⟨.enters event :: inner, outcome⟩ := by
  obtain ⟨last, runs, leaves⟩ := nests machine
  have unfolded : enclosed event body machine =
      ⟨.enters event :: (Noting.bind body (left event) machine).notes,
        (Noting.bind body (left event) machine).outcome⟩ := rfl
  rw [unfolded, Noting.bind]
  generalize body machine = trace at runs leaves
  rcases trace with ⟨moments, outcome⟩
  cases outcome with
  | done completion after =>
      obtain rfl : last = ⟨event :: calls, completion.leaving⟩ := leaves
      cases completion with
      | normal => exact .inl ⟨moments, none, after, runs, rfl⟩
      | returned value => exact .inl ⟨moments, some value, after, runs, rfl⟩
  | failed fault after =>
      exact .inr ⟨moments, last, .failed fault after, runs, leaves, (fun _ _ same => by cases same), rfl⟩
  | exhausted =>
      exact .inr ⟨moments, last, .exhausted, runs, leaves, (fun _ _ same => by cases same), rfl⟩

/-- **A call nests among its callers**, whether its body returns, comes to its end or fails. -/
lemma Nests.enclosed (nests : Returning (event :: calls) body) :
    Plain calls (Traced.enclosed event body) := by
  intro machine
  have callers : calls <:+ event :: calls := List.suffix_cons event calls
  obtain ⟨inner, leaving, after, runs, same⟩ | ⟨inner, last, outcome, runs, settled, fails, same⟩ :=
    enclosed_cases nests machine
  · rw [same]
    refine ⟨⟨calls, none⟩, .cons .enters callers ((runs.mono callers).append ?_), rfl⟩
    cases leaving with
    | none => exact .single .ends (List.suffix_refl _)
    | some value => exact .single .leaves (List.suffix_refl _)
  · rw [same]
    refine ⟨last, .cons .enters callers (runs.mono callers), ?_⟩
    cases outcome with
    | done value after => exact absurd rfl (fails value after)
    | failed fault after => exact settled
    | exhausted => exact settled

/-- A call yields what its body returned. -/
lemma encloses (nests : Returning (event :: calls) body) (machine : Machine) :
    (enclosed event body machine).Encloses calls event := by
  intro value after ended
  obtain ⟨inner, leaving, after', runs, same⟩ | ⟨inner, last, outcome, runs, settled, fails, same⟩ :=
    enclosed_cases nests machine
  · rw [same] at ended ⊢
    cases ended
    exact ⟨inner, leaving, rfl, runs, rfl⟩
  · rw [same] at ended
    exact absurd ended (fails value after)

/-! ## Runs -/

/-- With `n` steps allowed, everything that can be run nests inside of any calls.  A statement that is
outside of functions must not have a return there. -/
structure NestedRun (n : Nat) : Prop where
  evaluate : ∀ calls value, Plain calls (Traced.steps.evaluate n value)
  evaluateAll : ∀ calls values, Plain calls (Traced.steps.evaluateAll n values)
  call : ∀ calls callee paren arguments, Plain calls (Traced.steps.call n callee paren arguments)
  encloses : ∀ calls event closure paren arguments machine,
    (Traced.steps.call n (.function event closure) paren arguments machine).Encloses calls event
  execute : ∀ calls stmt, (calls = [] → stmt.Returnless) → Returning calls (Traced.steps.execute n stmt)
  evaluateOr : ∀ calls value, Plain calls (Traced.steps.evaluateOr n value)
  executeAll : ∀ calls stmts, (calls = [] → Stmt.ReturnlessAll stmts) →
    Returning calls (Traced.steps.executeAll n stmts)

namespace NestedRun

variable {n : Nat}

lemma evaluate_succ (ih : NestedRun n) (calls : List Nat) (value : Expr) :
    Plain calls (Traced.steps.evaluate (n + 1) value) := by
  refine .begins rfl .expression ?_
  cases value with
  | literal constant => exact .pure _ rfl
  | group inner => exact ih.evaluate calls inner
  | unary operator operand => exact (ih.evaluate calls operand).bind fun _ => .lift _
  | binary left operator right =>
      exact (ih.evaluate calls left).bind fun _ => (ih.evaluate calls right).bind fun _ => .lift _
  | logical left operator right =>
      refine (ih.evaluate calls left).bind fun value => ?_
      split
      · exact .pure _ rfl
      · exact ih.evaluate calls right
  | «variable» name hops => exact .lift _
  | assign name value hops =>
      exact (ih.evaluate calls value).bind fun _ => (Nests.lift _).bind fun _ => .pure _ rfl
  | call callee paren arguments =>
      exact (ih.evaluate calls callee).bind fun _ => (ih.evaluateAll calls arguments).bind fun _ =>
        ih.call calls _ _ _

lemma evaluateAll_succ (ih : NestedRun n) (calls : List Nat) (values : List Expr) :
    Plain calls (Traced.steps.evaluateAll (n + 1) values) := by
  cases values with
  | nil => exact .pure _ rfl
  | cons first others =>
      exact (ih.evaluate calls first).bind fun _ => (ih.evaluateAll calls others).bind fun _ =>
        .pure _ rfl

/-- The body of a function runs inside of its own call, so its returns stand inside of one. -/
lemma inside (ih : NestedRun n) (calls : List Nat) (event scope : Nat) (stmts : List Stmt) :
    Returning (event :: calls) (Noting.within scope (Traced.steps.executeAll n stmts)) :=
  (ih.executeAll (event :: calls) stmts fun top => by cases top).within scope

lemma call_succ (ih : NestedRun n) (calls : List Nat) (callee : Value) (paren : Token)
    (arguments : List Value) : Plain calls (Traced.steps.call (n + 1) callee paren arguments) := by
  cases callee with
  | function event closure =>
      simp only [Steps.call, Steps.ofCall]
      split
      · refine (Nests.lift _).bind fun scope => (Nests.lift _).bind fun _ => ?_
        exact .enclosed (ih.inside calls event scope closure.body)
      · exact .lift _
  | native index arity =>
      simp only [Steps.call, Steps.ofCall]
      split
      · exact .lift _
      · exact .lift _
  | nil => exact .lift _
  | bool value => exact .lift _
  | number value => exact .lift _
  | text value => exact .lift _

lemma encloses_succ (ih : NestedRun n) (calls : List Nat) (event : Nat) (closure : Closure)
    (paren : Token) (arguments : List Value) (machine : Machine) :
    (Traced.steps.call (n + 1) (.function event closure) paren arguments machine).Encloses calls
      event := by
  simp only [Steps.call, Steps.ofCall]
  split
  · exact Traced.encloses (ih.inside calls event _ closure.body) _
  · intro value after ended
    cases ended

lemma execute_succ (ih : NestedRun n) (calls : List Nat) (stmt : Stmt)
    (returnless : calls = [] → stmt.Returnless) :
    Returning calls (Traced.steps.execute (n + 1) stmt) := by
  refine .begins rfl .statement ?_
  cases stmt with
  | expression value => exact (ih.evaluate calls value).bind fun _ => .pure _ rfl
  | print value =>
      exact (ih.evaluate calls value).bind fun _ => (Nests.lift _).bind fun _ => .pure _ rfl
  | «variable» name initializer =>
      exact (ih.evaluateOr calls initializer).bind fun _ => (Nests.lift _).bind fun _ => .pure _ rfl
  | block body =>
      exact (Nests.lift _).bind fun _ => (Nests.lift _).bind fun scope =>
        (ih.executeAll calls body returnless).within scope
  | branch condition consequent alternative =>
      refine (ih.evaluate calls condition).bind fun value => ?_
      split
      · exact ih.execute calls consequent fun top => (returnless top).1
      · cases alternative with
        | none => exact .pure _ rfl
        | some alternative => exact ih.execute calls alternative fun top => (returnless top).2
  | loop condition body =>
      refine (ih.evaluate calls condition).bind fun value => ?_
      split
      · refine (ih.execute calls body returnless).bind_completion ?_ fun _ => rfl
        exact ih.execute calls (.loop condition body) returnless
      · exact .pure _ rfl
  | function name parameters body => exact (Nests.lift _).bind fun _ => .pure _ rfl
  | return_ keyword value =>
      exact (ih.evaluateOr calls value).bind fun value => .returns value returnless

lemma evaluateOr_succ (ih : NestedRun n) (calls : List Nat) (value : Option Expr) :
    Plain calls (Traced.steps.evaluateOr (n + 1) value) := by
  cases value with
  | none => exact .pure _ rfl
  | some value => exact ih.evaluate calls value

lemma executeAll_succ (ih : NestedRun n) (calls : List Nat) (stmts : List Stmt)
    (returnless : calls = [] → Stmt.ReturnlessAll stmts) :
    Returning calls (Traced.steps.executeAll (n + 1) stmts) := by
  cases stmts with
  | nil => exact .pure _ rfl
  | cons first others =>
      refine (ih.execute calls first fun top => (returnless top).1).bind_completion ?_ fun _ => rfl
      exact ih.executeAll calls others fun top => (returnless top).2

end NestedRun

/-- **Everything that can be run nests**, with every allowance and on every machine. -/
theorem nested (n : Nat) : NestedRun n := by
  induction n with
  | zero =>
      refine ⟨fun _ _ => .exhausted, fun _ _ => .exhausted, fun _ _ _ _ => .exhausted, ?_,
        fun _ _ _ => .exhausted, fun _ _ => .exhausted, fun _ _ _ => .exhausted⟩
      intro calls event closure paren arguments machine value after ended
      cases ended
  | succ n ih => exact ⟨ih.evaluate_succ, ih.evaluateAll_succ, ih.call_succ, ih.encloses_succ,
      ih.execute_succ, ih.evaluateOr_succ, ih.executeAll_succ⟩

end Traced

end LoxLang
