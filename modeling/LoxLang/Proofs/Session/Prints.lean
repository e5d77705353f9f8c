import Mathlib
import LoxLang.Proofs.Evaluation.Printed
import LoxLang.Proofs.Session.Diagnostics
import LoxLang.Proofs.Session.Refusal

/-!
# What a request prints

What a request prints is the same at every sink.  So the answers of a session at two sinks differ in
nothing but the sinks, as long as both take everything.

* `Session.prints` — what a request would print.
* `Session.onto`, `Answer.onto` — the same session, and the same answer, at another sink.
* `Request.executes` — the request is a program that is executed, so that the sink is flushed behind it.
* `Session.respond_settled` — there is one answer, the same at every sink that takes all prints and can
  be flushed.
* `Sink.Quiet` — a sink at which there is nothing to flush; **`Session.respond_taken`**, the answer there.
* **`Session.respond_refused_print`** — at a sink that refuses a print the answer is that refusal, with
  the machine as it stood in front of that print.
-/

namespace LoxLang

/-- There is nothing to flush, and flushing does not fail. -/
def Sink.Quiet (sink : Sink) : Prop := sink.flush = (none, sink)

lemma Machine.flush_done {machine : Machine} {flushed : Sink}
    (flushes : machine.sink.flush = (none, flushed)) (fault : Option Fault) :
    machine.flush fault = (fault, machine.onto flushed) := by
  rw [Machine.flush, flushes]
  rfl

/-- The same answer at another sink. -/
def Answer.onto (answer : Answer) (sink : Sink) : Answer := { answer with sink }

/-! ## Programs at a sink -/

/-- What a program comes to, from the outcome of its statements and with nothing to flush. -/
def Outcome.result {α : Type} : Outcome α → Option (Option Fault × Machine)
  | .done _ machine => some (none, machine)
  | .failed fault machine => some (some fault, machine)
  | .exhausted => none

namespace Machine

variable {allowance : Nat} {program : List Stmt} {machine left : Machine} {sink last flushed : Sink}

/-- A program whose prints are all taken, and whose sink is flushed behind them. -/
lemma interpret_taken (flushes : last.flush = (none, flushed))
    (taken : sink.passes (Printed.steps.executeAll allowance program machine).notes = .ok last) :
    (machine.onto sink).interpret allowance program =
      ((Printed.steps.executeAll allowance program machine).outcome.onto flushed).result := by
  have run := (Printed.prints allowance).executeAll program machine sink
  simp only [Noted.onto, taken] at run
  rw [Machine.interpret, run]
  cases (Printed.steps.executeAll allowance program machine).outcome with
  | done completion after => exact congrArg some (flush_done flushes none)
  | failed fault after => exact congrArg some (flush_done flushes (some fault))
  | exhausted => rfl

/-- A program one of whose prints is refused. -/
lemma interpret_refused {error : SinkError} (quiet : left.sink.Quiet)
    (refused : sink.passes (Printed.steps.executeAll allowance program machine).notes =
      .error (error, left)) :
    (machine.onto sink).interpret allowance program = some (some (.output error), left) := by
  have run := (Printed.prints allowance).executeAll program machine sink
  simp only [Noted.onto, refused] at run
  rw [Machine.interpret, run, Outcome.flushed]
  exact congrArg some (flush_done quiet _)

end Machine

/-! ## Requests at a sink -/

/-- Nothing is wrong with what can be run. -/
lemma Compilation.problems_of_runnable? {compilation : Compilation} {program : List Stmt}
    (runnable : compilation.runnable? = some program) : compilation.problems = [] := by
  rw [runnable?] at runnable
  split_ifs at runnable with nothing
  exact List.isEmpty_iff.mp nothing

/-- Whether a request is a program that is executed: nothing is wrong with its text. -/
def Request.executes : Request → Bool
  | .run source => (Compilation.ofSource source).runnable?.isSome
  | .evaluate _ => false

/-- The sink behind a request.  Only behind a program that was executed it is flushed. -/
def Request.settled (request : Request) (sink : Sink) : Option SinkError × Sink :=
  if request.executes then sink.flush else (none, sink)

namespace Session

/-- The same session at another sink. -/
def onto (session : Session) (sink : Sink) : Session := ⟨session.machine.onto sink, session.log⟩

/-- All that has arrived. -/
def arrived (session : Session) : ByteArray := session.machine.sink.arrived.bytes

/-- What a request would print if the sink took everything. -/
def prints (allowance : Nat) (session : Session) : Request → List Print
  | .run source =>
    match (Compilation.ofSource source).runnable? with
    | none => []
    | some program => (Printed.steps.executeAll allowance program session.machine).notes
  | .evaluate source =>
    match Program.readExpression source with
    | (some expression, []) =>
      (Printed.steps.evaluate allowance expression session.machine).notes
    | _ => []

variable {allowance : Nat} {session : Session} {source : String} {sink last : Sink}

/-! ### Runs -/

/-- A run by what its program comes to. -/
lemma run_runnable {program : List Stmt}
    (runnable : (Compilation.ofSource source).runnable? = some program) :
    session.run allowance source =
      behindRun session.log.reset (session.machine.interpret allowance program) := by
  have nothing : session.log.reset.reportAll [] = session.log.reset := rfl
  simp only [run, runOf, runnable, Compilation.problems_of_runnable? runnable, nothing]

/-- How the run of a program ends a step has nothing to do with the sink. -/
lemma behindRun_onto (log : Log) {α : Type} (outcome : Outcome α) :
    behindRun log (outcome.onto sink).result =
      (behindRun log outcome.result).map fun told => (told.1, told.2.onto sink) := by
  cases outcome <;> rfl

/-- One result for all sinks that take what the program prints and are flushed if it is executed. -/
lemma run_settled (allowance : Nat) (session : Session) (source : String) :
    ∃ told : Option (Status × Session), ∀ sink last settled : Sink,
      sink.passes (session.prints allowance (.run source)) = .ok last →
      (Request.run source).settled last = (none, settled) →
      (session.onto sink).run allowance source =
        told.map fun ended => (ended.1, ended.2.onto settled) := by
  cases runnable : (Compilation.ofSource source).runnable? with
  | none =>
      refine ⟨session.run allowance source, fun sink last settled taken ends => ?_⟩
      simp only [prints, runnable, Sink.passes, Except.ok.injEq] at taken
      simp only [Request.settled, Request.executes, runnable, Option.isSome_none, Bool.false_eq_true,
        if_false, Prod.mk.injEq, true_and] at ends
      subst taken ends
      simp only [run, runOf, runnable]
      rfl
  | some program =>
      refine ⟨behindRun session.log.reset
        (Printed.steps.executeAll allowance program session.machine).outcome.result,
        fun sink last settled taken ends => ?_⟩
      simp only [prints, runnable] at taken
      simp only [Request.settled, Request.executes, runnable, Option.isSome_some, if_true] at ends
      rw [run_runnable runnable, ← behindRun_onto, ← Machine.interpret_taken ends taken]
      rfl

/-- A run that ends with a refused print. -/
lemma run_refused_print {error : SinkError} {left : Machine} (quiet : left.sink.Quiet)
    (refused : sink.passes (session.prints allowance (.run source)) = .error (error, left)) :
    (session.onto sink).run allowance source =
      some (.runtimeError, ⟨left, session.log.reset.report (.output error.message)⟩) := by
  cases runnable : (Compilation.ofSource source).runnable? with
  | none =>
      simp only [prints, runnable, Sink.passes] at refused
      cases refused
  | some program =>
      simp only [prints, runnable] at refused
      rw [run_runnable runnable]
      exact congrArg (behindRun _) (Machine.interpret_refused quiet refused)

/-! ### Evaluations -/

lemma prints_evaluate {expression : Expr}
    (read : Program.readExpression source = (some expression, [])) :
    session.prints allowance (.evaluate source) =
      (Printed.steps.evaluate allowance expression session.machine).notes := by
  simp only [prints, read]

lemma prints_evaluate_refused (text : (Program.readExpression source).2 ≠ []) :
    session.prints allowance (.evaluate source) = [] := by
  simp only [prints]
  split
  · next read => exact absurd (congrArg Prod.snd read) text
  · rfl

/-- How a value ends a step has nothing to do with the sink. -/
lemma behindValue_onto (log : Log) (outcome : Outcome Value) :
    behindValue log (outcome.onto sink) =
      (behindValue log outcome).map fun told => (told.1, told.2.onto sink) := by
  cases outcome <;> rfl

/-- One result for all sinks that take what the expression prints. -/
lemma evaluate_taken (allowance : Nat) (session : Session) (source : String) :
    ∃ told : Option (Except Status Value × Session), ∀ sink last : Sink,
      sink.passes (session.prints allowance (.evaluate source)) = .ok last →
      (session.onto sink).evaluate allowance source =
        told.map fun ended => (ended.1, ended.2.onto last) := by
  by_cases clean : (Program.readExpression source).2 = []
  · obtain ⟨expression, read⟩ := Program.exists_expression clean
    refine ⟨behindValue session.log.reset
      (Printed.steps.evaluate allowance expression session.machine).outcome,
      fun sink last taken => ?_⟩
    rw [prints_evaluate read] at taken
    have here := (Printed.prints allowance).evaluate expression session.machine sink
    simp only [Noted.onto, taken] at here
    rw [evaluate_accepted allowance _ read, ← behindValue_onto, ← here]
    rfl
  · refine ⟨session.evaluate allowance source, fun sink last taken => ?_⟩
    rw [prints_evaluate_refused clean] at taken
    cases taken
    rw [evaluate_refused _ _ _ clean, evaluate_refused _ _ _ clean]
    rfl

/-- An evaluation that ends with a refused print. -/
lemma evaluate_refused_print {error : SinkError} {left : Machine}
    (refused : sink.passes (session.prints allowance (.evaluate source)) = .error (error, left)) :
    (session.onto sink).evaluate allowance source =
      some (.error .runtimeError, ⟨left, session.log.reset.report (.output error.message)⟩) := by
  by_cases clean : (Program.readExpression source).2 = []
  · obtain ⟨expression, read⟩ := Program.exists_expression clean
    rw [prints_evaluate read] at refused
    have here := (Printed.prints allowance).evaluate expression session.machine sink
    simp only [Noted.onto, refused] at here
    rw [evaluate_accepted allowance _ read]
    exact congrArg (behindValue _) here
  · rw [prints_evaluate_refused clean] at refused
    cases refused

/-! ### Answers -/

/-- **One answer for all sinks** that take what the request prints, and can be flushed if it is
executed. -/
theorem respond_settled (allowance : Nat) (session : Session) (request : Request) :
    ∃ told : Option (Answer × Session), ∀ sink last settled : Sink,
      sink.passes (session.prints allowance request) = .ok last →
      request.settled last = (none, settled) →
      (session.onto sink).respond allowance request =
        told.map fun answered => (answered.1.onto settled, answered.2.onto settled) := by
  cases request with
  | run source =>
      obtain ⟨told, same⟩ := run_settled allowance session source
      refine ⟨told.map fun told => answered (told.1, none) told.2, fun sink last settled taken ends => ?_⟩
      rw [respond, same sink last settled taken ends, Option.map_map, Option.map_map]
      rfl
  | evaluate source =>
      obtain ⟨told, same⟩ := evaluate_taken allowance session source
      refine ⟨told.map fun told => answered (Answer.ofResult told.1) told.2,
        fun sink last settled taken ends => ?_⟩
      obtain rfl : last = settled := (Prod.mk.inj ends).2
      rw [respond, same sink last taken, Option.map_map, Option.map_map]
      rfl

/-- **One answer for all quiet sinks** that take what the request prints. -/
theorem respond_taken (allowance : Nat) (session : Session) (request : Request) :
    ∃ told : Option (Answer × Session), ∀ sink last : Sink, last.Quiet →
      sink.passes (session.prints allowance request) = .ok last →
      (session.onto sink).respond allowance request =
        told.map fun answered => (answered.1.onto last, answered.2.onto last) := by
  obtain ⟨told, same⟩ := respond_settled allowance session request
  refine ⟨told, fun sink last quiet taken => same sink last last taken ?_⟩
  rw [Request.settled, quiet, ite_self]

/-- **A refused print ends the request**, with the machine as it stood in front of it. -/
theorem respond_refused_print {request : Request} {error : SinkError} {left : Machine}
    (drained : session.Drained) (quiet : left.sink.Quiet)
    (refused : sink.passes (session.prints allowance request) = .error (error, left)) :
    ∃ log, (session.onto sink).respond allowance request =
      some (⟨.runtimeError, none, [.output error.message], left.sink⟩, ⟨left, log⟩) := by
  have told : (session.log.reset.report (.output error.message)).take.1 = [.output error.message] := by
    rw [Log.take, Log.report, Log.reset, drained, List.nil_append]
  cases request with
  | run source =>
      rw [respond, run_refused_print quiet refused, ← told]
      exact ⟨_, rfl⟩
  | evaluate source =>
      rw [respond, evaluate_refused_print refused, ← told]
      exact ⟨_, rfl⟩

end Session

end LoxLang
