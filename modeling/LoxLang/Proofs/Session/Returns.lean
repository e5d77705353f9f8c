import Mathlib
import LoxLang.Proofs.Evaluation.Nested
import LoxLang.Proofs.Session.Visits

/-!
# Programs are never ended by a return

A return outside of functions would end a program without a word.  A program in which nothing is wrong
has none, and the returns of its functions, as of all functions that the session knows, end with their
calls.

* `Action.Passes` — statements that were executed one after another and all ended normally.
* `Action.Stops` — statements up to one that failed.
* `Action.passes_or_stops` — statements without a return do one or the other.
* **`Session.returns_nested`** — what becomes of the returns of a program in which nothing is wrong.
-/

namespace LoxLang

namespace Action

/-- The statements were executed one after another, and all of them ended normally. -/
inductive Passes : Machine → List Stmt → Machine → Prop where
  | nil {machine : Machine} : Passes machine [] machine
  | cons {n : Nat} {machine mid last : Machine} {first : Stmt} {others : List Stmt} :
      execute n first machine = .done .normal mid → Passes mid others last →
      Passes machine (first :: others) last

/-- The statements were executed up to one that failed. -/
def Stops (machine : Machine) (stmts : List Stmt) (fault : Fault) (last : Machine) : Prop :=
  ∃ front stmt behind mid n, stmts = front ++ stmt :: behind ∧ Passes machine front mid ∧
    execute n stmt mid = .failed fault last

/-- What the end of several statements says of each of them. -/
def Ran (machine : Machine) (stmts : List Stmt) : Outcome Completion → Prop
  | .done completion last => completion = .normal ∧ Passes machine stmts last
  | .failed fault last => Stops machine stmts fault last
  | .exhausted => True

lemma Ran.cons {n : Nat} {machine mid : Machine} {first : Stmt} {others : List Stmt}
    {outcome : Outcome Completion} (executed : execute n first machine = .done .normal mid)
    (ran : Ran mid others outcome) : Ran machine (first :: others) outcome := by
  cases outcome with
  | done completion last => exact ⟨ran.1, .cons executed ran.2⟩
  | failed fault last =>
      obtain ⟨front, stmt, behind, later, m, rfl, passes, fails⟩ := ran
      exact ⟨first :: front, stmt, behind, later, m, rfl, .cons executed passes, fails⟩
  | exhausted => trivial

/-- **Statements without a return outside of functions pass or stop at a failure.** -/
lemma passes_or_stops (n : Nat) (stmts : List Stmt) (returnless : Stmt.ReturnlessAll stmts)
    (machine : Machine) : Ran machine stmts (executeAll n stmts machine) := by
  induction stmts generalizing n machine with
  | nil =>
      cases n with
      | zero => exact trivial
      | succ n => exact ⟨rfl, .nil⟩
  | cons first others ih =>
      cases n with
      | zero => exact trivial
      | succ n =>
          have ended := (normal n).1 first returnless.1 machine
          show Ran machine _ (Action.bind (execute n first) _ machine)
          unfold Action.bind
          cases found : execute n first machine with
          | done completion mid =>
              cases completion with
              | normal => exact .cons found (ih n returnless.2 mid)
              | returned value => exact absurd found (ended value mid)
          | failed fault last => exact ⟨[], first, others, machine, n, rfl, .nil, found⟩
          | exhausted => trivial

end Action

/-- A program in which nothing is wrong has no return outside of functions. -/
lemma Compilation.returnless {source : String} {program : List Stmt}
    (runnable : (ofSource source).runnable? = some program) : Stmt.ReturnlessAll program := by
  obtain ⟨tree, -, sound, rfl⟩ := exists_of_runnable? runnable
  exact Stmt.returnlessAll_of_mistakes [] tree [] sound

lemma Stmt.returnless_of_mem {stmts : List Stmt} (returnless : Stmt.ReturnlessAll stmts)
    {stmt : Stmt} (found : stmt ∈ stmts) : stmt.Returnless := by
  induction stmts with
  | nil => cases found
  | cons first others ih =>
      cases found with
      | head => exact returnless.1
      | tail _ found => exact ih returnless.2 found

namespace Session

/-- How a step ends whose program was run: at the end of the program, which a refusal of the sink may
still turn into a failure, or at the first statement that fails. -/
inductive Finished (session : Session) (program : List Stmt) : Status → Session → Prop where
  | completed {last : Machine} {after : Session} :
      Action.Passes session.machine program last → last.flush none = (none, after.machine) →
      Finished session program .completed after
  | refused {last : Machine} {fault : Fault} {after : Session} :
      Action.Passes session.machine program last → last.flush none = (some fault, after.machine) →
      Finished session program .runtimeError after
  | stopped {last : Machine} {fault told : Fault} {after : Session} :
      Action.Stops session.machine program fault last →
      last.flush (some fault) = (some told, after.machine) →
      Finished session program .runtimeError after

variable {source : String} {program : List Stmt}

/-- **A program in which nothing is wrong never stops quietly.** -/
lemma finished (runnable : (Compilation.ofSource source).runnable? = some program) (allowance : Nat)
    {session after : Session} {status : Status}
    (ran : session.run allowance source = some (status, after)) :
    session.Finished program status after := by
  have ends := Action.passes_or_stops allowance program (Compilation.returnless runnable)
    session.machine
  simp only [run, runOf, behindRun, runnable, Machine.interpret] at ran
  cases found : Action.executeAll allowance program session.machine with
  | done completion last =>
      rw [found] at ran ends
      rcases flushed : last.flush none with ⟨_ | fault, machine⟩
      · simp only [Outcome.flushed, flushed] at ran
        cases ran
        exact .completed ends.2 flushed
      · simp only [Outcome.flushed, flushed] at ran
        cases ran
        exact .refused ends.2 flushed
  | failed fault last =>
      rw [found] at ran ends
      obtain ⟨told, sink, flushed, same⟩ := flush_cases (some fault) last
      obtain ⟨told, rfl⟩ : ∃ other, told = some other := by
        rcases same with rfl | ⟨error, rfl⟩
        · exact ⟨fault, rfl⟩
        · exact ⟨_, rfl⟩
      simp only [Outcome.flushed, flushed] at ran
      cases ran
      exact .stopped ends flushed
  | exhausted =>
      rw [found] at ran
      cases ran

/-- The moments of a program that a session runs. -/
def moments (allowance : Nat) (program : List Stmt) (session : Session) : List Moment :=
  (Traced.steps.executeAll allowance program session.machine).notes

/-- **Returns end the innermost call, and nothing else.**  Let nothing be wrong with a program.  None of
its statements at the top ends in a return, in whatever state.  A step with it ends at the end of the
program or at a failure.  Whatever is run nests, and from outside of all functions so do the moments of
the program, which are outside of all functions again when it is done: behind each return the innermost
active call ends with its value, and the calls around it go on. -/
theorem returns_nested (runnable : (Compilation.ofSource source).runnable? = some program)
    (session : Session) (allowance : Nat) :
    (∀ stmt ∈ program, ∀ n machine value after,
        Action.execute n stmt machine ≠ .done (.returned value) after) ∧
      (∀ status after, session.run allowance source = some (status, after) →
        session.Finished program status after) ∧
      (∀ n, Traced.Faithful n ∧ Traced.NestedRun n) ∧
      ∃ last, Activity.Runs [] .outside (session.moments allowance program) last ∧
        (∀ completion after, Action.executeAll allowance program session.machine =
          .done completion after → last = .outside) ∧
        ∀ front value behind,
          session.moments allowance program = front ++ .returns value :: behind →
          ∃ event calls rest, Activity.Runs [] .outside front ⟨event :: calls, none⟩ ∧
            behind = .leaves event value :: rest ∧ Activity.Runs [] ⟨calls, none⟩ rest last := by
  have returnless := Compilation.returnless runnable
  obtain ⟨last, runs, leaves⟩ := (Traced.nested allowance).executeAll [] program
    (fun _ => returnless) session.machine
  have ends := Action.passes_or_stops allowance program returnless session.machine
  rw [(Traced.faithful allowance).executeAll] at leaves
  have normal : ∀ completion after, Action.executeAll allowance program session.machine =
      .done completion after → last = .outside := by
    intro completion after found
    rw [found] at leaves ends
    obtain ⟨rfl, -⟩ := ends
    exact leaves
  have settled : last.leaving = none := by
    cases found : Action.executeAll allowance program session.machine with
    | done completion after => rw [normal completion after found]; rfl
    | failed fault after => rw [found] at leaves; exact leaves
    | exhausted => rw [found] at leaves; exact leaves
  refine ⟨fun stmt found n => (Action.normal n).1 stmt (Stmt.returnless_of_mem returnless found),
    fun status after ran => finished runnable allowance ran,
    fun n => ⟨Traced.faithful n, Traced.nested n⟩, last, runs, normal, fun front value behind same => ?_⟩
  exact Activity.Runs.returned (same ▸ runs) settled

/-- A return inside of a loop leaves the function around the loop. -/
theorem returns_nested_loop :
    let source := "fun f() \x7b while (true) return; \x7d f();"
    let session := Session.start (.direct .empty) fun _ => 0
    ∃ program after, (Compilation.ofSource source).runnable? = some program ∧
      session.run 20 source = some (.completed, after) ∧
      session.Finished program .completed after := by
  intro source session
  have sound : ((Compilation.ofSource source).runnable?.isSome) = true := by
    simp only [source]
    cbv
  have completed : (session.run 20 source).map Prod.fst = some .completed := by
    simp only [source, session]
    cbv
  clear_value source
  obtain ⟨program, runnable⟩ := Option.isSome_iff_exists.mp sound
  obtain ⟨⟨status, after⟩, ran, rfl⟩ := Option.map_eq_some_iff.mp completed
  exact ⟨program, after, runnable, ran, (returns_nested runnable session 20).2.1 _ _ ran⟩

end Session

end LoxLang
