import Mathlib
import LoxLang.Proofs.Evaluation.Provenance
import LoxLang.Proofs.Session.Visits

/-!
# A function is the event that made it

Functions live on from one step of a session to the next, and in between the host may register more of
its own or run trees that no text was read for.  Through all of this the notes tell where each function
comes from.

* `Task` — what can be done with a session; `Session.perform` and `Session.notes`, what comes of it and
  what is noted on the way.
* `Session.History` — a state that a session comes to, with all notes so far.
* `Session.History.recorded` — the notes tell of all functions that a session knows.
* **`Session.functions_equal_iff`** — two functions that meet are equal exactly if one declaration event
  made both.
-/

namespace LoxLang

/-- What can be done with a session. -/
inductive Task where
  /-- To give it a text. -/
  | answer (request : Request)
  /-- To have it run a program that was put together by hand. -/
  | interpret (program : List Stmt)
  /-- To have it evaluate an expression that was put together by hand. -/
  | compute (value : Expr)
  /-- To make a function of the host known to it. -/
  | register (name : String) (native : Native)
  | takeOutput
  | takeDiagnostics

/-- No function of the host makes functions. -/
def Task.Honest : Task → Prop
  | .register _ native => native.Honest
  | _ => True

/-- The machine behind a step; nothing if the allowance is used up. -/
def Outcome.machine? {α : Type} : Outcome α → Option Machine
  | .done _ machine => some machine
  | .failed _ machine => some machine
  | .exhausted => none

namespace Session

/-- The session after a task; nothing if the allowance is used up. -/
def perform (allowance : Nat) (session : Session) : Task → Option Session
  | .answer request => session.answer allowance request
  | .interpret program =>
    (session.machine.interpret allowance program).map fun told => { session with machine := told.2 }
  | .compute value =>
    (Action.evaluate allowance value session.machine).machine?.map fun machine =>
      { session with machine }
  | .register name native => some { session with machine := session.machine.register name native }
  | .takeOutput => some session.takeOutput.2
  | .takeDiagnostics => some session.takeDiagnostics.2

/-- What is noted during a task, also if the allowance is used up. -/
def notes (allowance : Nat) (session : Session) : Task → List Note
  | .answer (.run source) =>
    match (Compilation.ofSource source).runnable? with
    | none => []
    | some program => (Annotated.steps.executeAll allowance program session.machine).notes
  | .answer (.evaluate source) =>
    match Program.readExpression source with
    | (some value, []) => (Annotated.steps.evaluate allowance value session.machine).notes
    | _ => []
  | .interpret program => (Annotated.steps.executeAll allowance program session.machine).notes
  | .compute value => (Annotated.steps.evaluate allowance value session.machine).notes
  | .register _ native => [.produced (.native session.machine.natives.length native.arity)]
  | .takeOutput => []
  | .takeDiagnostics => []

/-- A state that a session comes to, with the notes of all that was done so far.  The first of them is
the registration of the clock, and the allowance is another one for each task. -/
inductive History (sink : Sink) (clock : Nat → Float) : List Note → Session → Prop where
  | start : History sink clock [.produced (.native 0 0)] (.start sink clock)
  | perform {allowance : Nat} {log : List Note} {session after : Session} {task : Task} :
      History sink clock log session → task.Honest → session.perform allowance task = some after →
      History sink clock (log ++ session.notes allowance task) after

end Session

/-! ## One task -/

section Outcomes

variable {α : Type} {Q : List Note → α → Prop} {log : List Note} {outcome : Outcome α}

lemma Outcome.Recorded.coherent (recorded : outcome.Recorded Q log) : Note.Coherent log := by
  cases outcome with
  | done value after => exact recorded.1.coherent
  | failed fault after => exact Machine.Recorded.coherent recorded
  | exhausted => exact recorded

lemma Outcome.Recorded.machine (recorded : outcome.Recorded Q log) {after : Machine}
    (found : outcome.machine? = some after) : after.Recorded log := by
  cases outcome with
  | done value machine =>
      cases found
      exact recorded.1
  | failed fault machine =>
      cases found
      exact recorded
  | exhausted => cases found

end Outcomes

namespace Machine.Recorded

variable {log : List Note} {machine : Machine}

/-- The evaluation of any expression, whatever becomes of it. -/
lemma evaluate (recorded : machine.Recorded log) (allowance : Nat) (value : Expr) :
    (Action.evaluate allowance value machine).Recorded Value.ProducedIn
      (log ++ (Annotated.steps.evaluate allowance value machine).notes) := by
  rw [← (Annotated.faithful allowance).evaluate value machine]
  exact (Annotated.records allowance).evaluate log value machine recorded

/-- The execution of any program, whatever becomes of it. -/
lemma executeAll (recorded : machine.Recorded log) (allowance : Nat) (program : List Stmt) :
    (Action.executeAll allowance program machine).Recorded Completion.ProducedIn
      (log ++ (Annotated.steps.executeAll allowance program machine).notes) := by
  rw [← (Annotated.faithful allowance).executeAll program machine]
  exact (Annotated.records allowance).executeAll log program machine recorded

/-- Flushing has nothing to do with functions. -/
lemma flush (recorded : machine.Recorded log) (fault : Option Fault) :
    (machine.flush fault).2.Recorded log := by
  obtain ⟨told, sink, flushed, _⟩ := Session.flush_cases fault machine
  rw [flushed]
  exact recorded.of_eq rfl rfl rfl

/-- The run of any program, its flush included. -/
lemma interpret (recorded : machine.Recorded log) {allowance : Nat} {program : List Stmt}
    {told : Option Fault × Machine} (ran : machine.interpret allowance program = some told) :
    told.2.Recorded (log ++ (Annotated.steps.executeAll allowance program machine).notes) := by
  have executed := recorded.executeAll allowance program
  rw [Machine.interpret] at ran
  cases found : Action.executeAll allowance program machine with
  | done completion after =>
      rw [found] at ran executed
      cases ran
      exact executed.1.flush none
  | failed fault after =>
      rw [found] at ran executed
      cases ran
      exact Machine.Recorded.flush executed (some fault)
  | exhausted =>
      rw [found] at ran
      cases ran

end Machine.Recorded

namespace Session

variable {log : List Note} {session : Session} {allowance : Nat}

/-- What is to be shown of one task. -/
def Accounts (allowance : Nat) (log : List Note) (session : Session) (task : Task) : Prop :=
  Note.Coherent (log ++ session.notes allowance task) ∧
    ∀ after, session.perform allowance task = some after →
      after.machine.Recorded (log ++ session.notes allowance task)

/-- Where nothing is annotated, the functions stay as they are. -/
lemma accounts_silent {task : Task} (recorded : session.machine.Recorded log)
    (silent : session.notes allowance task = [])
    (same : ∀ after, session.perform allowance task = some after → after.machine.Recorded log) :
    Accounts allowance log session task := by
  rw [Accounts, silent, List.append_nil]
  exact ⟨recorded.coherent, same⟩

lemma accounts_run (recorded : session.machine.Recorded log) (allowance : Nat) (source : String) :
    Accounts allowance log session (.answer (.run source)) := by
  cases runnable : (Compilation.ofSource source).runnable? with
  | none =>
      refine accounts_silent recorded (by simp only [notes, runnable]) fun after performed => ?_
      simp only [perform, answer, run, runOf, runnable] at performed
      cases performed
      exact recorded
  | some program =>
      simp only [Accounts, notes, perform, answer, run, runOf, behindRun, runnable]
      refine ⟨(recorded.executeAll allowance program).coherent, fun after performed => ?_⟩
      cases ran : session.machine.interpret allowance program with
      | none =>
          rw [ran] at performed
          cases performed
      | some told =>
          have kept := recorded.interpret ran
          obtain ⟨_ | fault, machine⟩ := told <;> rw [ran] at performed <;> cases performed <;>
            exact kept

lemma accounts_evaluate (recorded : session.machine.Recorded log) (allowance : Nat)
    (source : String) : Accounts allowance log session (.answer (.evaluate source)) := by
  rcases read : Program.readExpression source with ⟨_ | value, _ | ⟨problem, problems⟩⟩
  case some.nil =>
    have evaluated := recorded.evaluate allowance value
    simp only [Accounts, notes, perform, answer, evaluate, evaluateOf, behindValue, read]
    refine ⟨evaluated.coherent, fun after performed => ?_⟩
    cases found : Action.evaluate allowance value session.machine with
    | done yielded machine =>
        rw [found] at performed evaluated
        cases performed
        exact evaluated.1
    | failed fault machine =>
        rw [found] at performed evaluated
        cases performed
        exact evaluated
    | exhausted =>
        rw [found] at performed
        cases performed
  all_goals
    refine accounts_silent recorded (by simp only [notes, read]) fun after performed => ?_
    simp only [perform, answer, evaluate, evaluateOf, read] at performed
    cases performed
    exact recorded

/-- **One task**, whatever it is. -/
lemma accounts (recorded : session.machine.Recorded log) (allowance : Nat) {task : Task}
    (honest : task.Honest) : Accounts allowance log session task := by
  cases task with
  | answer request =>
      cases request with
      | run source => exact accounts_run recorded allowance source
      | evaluate source => exact accounts_evaluate recorded allowance source
  | interpret program =>
      refine ⟨(recorded.executeAll allowance program).coherent, fun after performed => ?_⟩
      obtain ⟨told, ran, rfl⟩ := Option.map_eq_some_iff.mp performed
      exact recorded.interpret ran
  | compute value =>
      refine ⟨(recorded.evaluate allowance value).coherent, fun after performed => ?_⟩
      obtain ⟨machine, found, rfl⟩ := Option.map_eq_some_iff.mp performed
      exact (recorded.evaluate allowance value).machine found
  | register name native =>
      have registered := recorded.register name honest
      refine ⟨registered.coherent, fun after performed => ?_⟩
      cases performed
      exact registered
  | takeOutput =>
      refine accounts_silent recorded rfl fun after performed => ?_
      cases performed
      exact recorded.of_eq rfl rfl rfl
  | takeDiagnostics =>
      refine accounts_silent recorded rfl fun after performed => ?_
      cases performed
      exact recorded

end Session

/-! ## All tasks -/

/-- Whether two functions are equal, if a note tells that they meet at `==`. -/
def Note.verdict? : Note → Option Bool
  | .produced _ => none
  | .meet operator left right =>
    if left.isCallable && right.isCallable && operator.kind == .equalEqual then
      some (left.equals right)
    else none

namespace Session

variable {log : List Note} {session : Session}

/-- **The notes tell of all functions that a session knows.** -/
theorem History.recorded {sink : Sink} {clock : Nat → Float}
    (history : History sink clock log session) : session.machine.Recorded log := by
  induction history with
  | start => exact .start sink clock
  | perform _ honest performed ih => exact (accounts ih _ honest).2 _ performed

/-- **Functions are equal exactly if one event made both.**  In every session, whatever has been done
with it and whatever is done next, let two functions meet at an operator.  Each of them was produced at
one moment before, by the execution of a declaration or by a registration, and at no other moment.  The
operators for equality compare just these moments, and the notes that tell of them are those of the run
itself. -/
theorem functions_equal_iff {sink : Sink} {clock : Nat → Float}
    (history : History sink clock log session) {task : Task} (honest : task.Honest) (allowance : Nat)
    {m : Nat} {operator : Token} {left right : Value}
    (meets : (log ++ session.notes allowance task)[m]? = some (.meet operator left right))
    (leftCallable : left.isCallable = true) (rightCallable : right.isCallable = true) :
    (∀ n, Annotated.Faithful n) ∧
      ∃ p < m, ∃ q < m, Note.ProducedAt (log ++ session.notes allowance task) left p ∧
        Note.ProducedAt (log ++ session.notes allowance task) right q ∧
        (operator.kind = .equalEqual →
          left.combined operator.kind right = .ok (.bool (decide (p = q)))) ∧
        (operator.kind = .bangEqual →
          left.combined operator.kind right = .ok (.bool (decide (p ≠ q)))) := by
  obtain ⟨coherent, -⟩ := accounts history.recorded allowance honest
  obtain ⟨p, leftEarlier, q, rightEarlier, leftAt, rightAt, equal⟩ :=
    coherent.meeting meets leftCallable rightCallable
  refine ⟨Annotated.faithful, p, leftEarlier, q, rightEarlier, leftAt, rightAt, ?_, ?_⟩
  · intro kind
    rw [kind, Value.combined, equal]
  · intro kind
    rw [kind, Value.combined, equal, decide_not]

/-- Two calls of one function declare the same body, and in a later step a copy of the first closure
meets the second: they were produced at different moments and are not equal. -/
theorem functions_equal_iff_closures :
    let first := start (.direct .empty) fun _ => 0
    let made : Task := .answer (.run "fun make() \x7b fun f() \x7b\x7d return f; \x7d var a = make();")
    let compared : Task := .answer (.run "var b = a; b == make();")
    let log := [Note.produced (.native 0 0)] ++ first.notes 40 made
    ∃ session operator left right, first.perform 40 made = some session ∧
      History (.direct .empty) (fun _ => 0) log session ∧
      (log ++ session.notes 40 compared)[4]? = some (.meet operator left right) ∧
      ∃ p q, Note.ProducedAt (log ++ session.notes 40 compared) left p ∧
        Note.ProducedAt (log ++ session.notes 40 compared) right q ∧ p ≠ q ∧
        left.combined operator.kind right = .ok (.bool false) := by
  intro first made compared log
  have madeHonest : made.Honest := trivial
  have comparedHonest : compared.Honest := trivial
  have computed : (first.perform 40 made).bind (fun session =>
      (log ++ session.notes 40 compared)[4]?.bind Note.verdict?) = some false := by
    simp only [first, made, compared, log]
    decide +kernel
  clear_value made compared
  obtain ⟨session, performed, rest⟩ := Option.bind_eq_some_iff.mp computed
  obtain ⟨note, meets, verdict⟩ := Option.bind_eq_some_iff.mp rest
  have history : History (.direct .empty) (fun _ => 0) log session :=
    .perform .start madeHonest performed
  cases note with
  | produced function => cases verdict
  | meet operator left right =>
      simp only [Note.verdict?, Option.ite_none_right_eq_some, Option.some.injEq, Bool.and_eq_true,
        beq_iff_eq] at verdict
      obtain ⟨⟨⟨leftCallable, rightCallable⟩, kind⟩, unequal⟩ := verdict
      obtain ⟨-, p, -, q, -, leftAt, rightAt, equal, -⟩ :=
        functions_equal_iff history comparedHonest 40 meets leftCallable rightCallable
      have differ : left.combined operator.kind right = .ok (.bool false) := by
        rw [kind, Value.combined, unequal]
      refine ⟨session, operator, left, right, performed, history, meets, p, q, leftAt, rightAt, ?_,
        differ⟩
      intro same
      have equal := equal kind
      rw [differ, decide_eq_true same] at equal
      cases equal

end Session

end LoxLang
