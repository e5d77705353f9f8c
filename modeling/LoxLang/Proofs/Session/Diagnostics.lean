import Mathlib
import LoxLang.Proofs.Session.Refusal

/-!
# How a step ends and what it reports

A log keeps the diagnostics of earlier steps until they are taken, and two flags that are cleared at
the start of each step.  A step can therefore ask the flags whether to go on, and does not have to look
at the diagnostics.  Both ways to decide are the same, and how a step ended can be told from the
diagnostics that it added.

* `Stage`, `Diagnostic.stage` — the part of a step in which a problem is found.
* `Log.reportAll_eq` — a log with more diagnostics, flags included.
* `Program.told_stages` — in which order the problems of a text are told.
* `Session.runByFlags`, `Session.evaluateByFlags` — steps that go by the flags; `runByFlags_eq` and
  `evaluateByFlags_eq`, they are the steps.
* `Session.Adds`, `Status.Tells` — what a step adds to the log, and what that has to do with its end.
* **`Session.status_told`** — status and diagnostics of a step agree, whatever happened before.
-/

namespace LoxLang

/-! ## Where problems are found -/

/-- The parts of a step in which problems are found. -/
inductive Stage where
  | characters
  | tokens
  | names
  /-- The program runs, and its output is passed on. -/
  | execution
  deriving DecidableEq, Repr

namespace Diagnostic

/-- The part of a step in which a problem is found. -/
def stage : Diagnostic → Stage
  | lexical _ _ => .characters
  | grammatical _ _ => .tokens
  | scoping _ _ => .names
  | runtime _ _ => .execution
  | output _ => .execution

lemma isRuntime_eq_false {diagnostic : Diagnostic} (early : diagnostic.stage ≠ .execution) :
    diagnostic.isRuntime = false := by
  cases diagnostic with
  | runtime line text => exact absurd rfl early
  | _ => rfl

end Diagnostic

@[simp] lemma LexicalFault.stage_diagnostic (fault : LexicalFault) :
    fault.diagnostic.stage = .characters := rfl

@[simp] lemma SyntaxReport.stage_diagnostic (endMark : Token) (report : SyntaxReport) :
    (report.diagnostic endMark).stage = .tokens := rfl

@[simp] lemma ScopeReport.stage_diagnostic (report : ScopeReport) :
    report.diagnostic.stage = .names := rfl

@[simp] lemma Fault.stage_diagnostic (fault : Fault) : fault.diagnostic.stage = .execution := by
  cases fault <;> rfl

lemma Stage.early {stage : Stage} (found : stage = .characters ∨ stage = .tokens) :
    stage ≠ .execution := by
  rcases found with rfl | rfl <;> decide

/-! ## Flags -/

namespace Log

/-- **Adding diagnostics** keeps those before, and raises the flags of those added. -/
lemma reportAll_eq (log : Log) (diagnostics : List Diagnostic) :
    log.reportAll diagnostics = ⟨log.pending ++ diagnostics,
      log.hadError || diagnostics.any (!·.isRuntime),
      log.hadRuntimeError || diagnostics.any (·.isRuntime)⟩ := by
  rw [reportAll]
  induction diagnostics generalizing log with
  | nil => simp
  | cons first others ih =>
      rw [List.foldl_cons, ih, report]
      simp [Bool.or_assoc]

lemma reportAll_reportAll (log : Log) (first second : List Diagnostic) :
    (log.reportAll first).reportAll second = log.reportAll (first ++ second) := by
  rw [reportAll, reportAll, reportAll, List.foldl_append]

/-- Since the flags were cleared, one is up exactly if something was reported before the run. -/
lemma hadError_reset (log : Log) {diagnostics : List Diagnostic}
    (early : ∀ diagnostic ∈ diagnostics, diagnostic.stage ≠ .execution) :
    (log.reset.reportAll diagnostics).hadError = !diagnostics.isEmpty := by
  rw [reportAll_eq]
  cases diagnostics with
  | nil => rfl
  | cons first others =>
      simp [Diagnostic.isRuntime_eq_false (early first List.mem_cons_self)]

end Log

/-! ## Problems of a source -/

namespace Program

/-- What is told about characters stands before what is told about tokens. -/
lemma told_stages (faults : List LexicalFault) (endMark : Token) (reports : List SyntaxReport) :
    let problems := faults.map LexicalFault.diagnostic ++ reports.map (·.diagnostic endMark)
    (∀ problem ∈ problems, problem.stage = .characters ∨ problem.stage = .tokens) ∧
      problems.Pairwise fun before after =>
        before.stage = .tokens → after.stage ≠ .characters := by
  intro problems
  constructor
  · intro problem mem
    rcases List.mem_append.mp mem with mem | mem
    · obtain ⟨fault, -, rfl⟩ := List.mem_map.mp mem
      exact .inl rfl
    · obtain ⟨report, -, rfl⟩ := List.mem_map.mp mem
      exact .inr rfl
  · refine List.pairwise_append.mpr ⟨?_, ?_, ?_⟩
    · exact List.pairwise_map.mpr (List.pairwise_of_forall fun _ _ same => by cases same)
    · exact List.pairwise_map.mpr (List.pairwise_of_forall fun _ _ _ same => by cases same)
    · intro before mem after _ same
      obtain ⟨fault, -, rfl⟩ := List.mem_map.mp mem
      cases same

lemma early_read (source : String) :
    ∀ problem ∈ (read source).2, problem.stage ≠ .execution :=
  fun _ mem => Stage.early ((told_stages _ _ _).1 _ mem)

lemma early_readExpression (source : String) :
    ∀ problem ∈ (readExpression source).2, problem.stage ≠ .execution :=
  fun _ mem => Stage.early ((told_stages _ _ _).1 _ mem)

lemma early_mistakes (program : List Stmt) :
    ∀ problem ∈ (mistakes program).map ScopeReport.diagnostic, problem.stage ≠ .execution := by
  intro problem mem
  obtain ⟨mistake, -, rfl⟩ := List.mem_map.mp mem
  simp

/-- An expression that is not found is missed by a report. -/
lemma exists_report {tokens : List Token} (missing : (parseExpression tokens).tree = none) :
    (parseExpression tokens).reports ≠ [] := by
  revert missing
  rw [parseExpression]
  rcases Parser.expression (beforeEnd tokens) with ⟨reports, _ | ⟨token, rest⟩, error | value⟩ <;>
    simp

/-- Where nothing is wrong, there is an expression. -/
lemma exists_expression {source : String} (clean : (readExpression source).2 = []) :
    ∃ expression, readExpression source = (some expression, []) := by
  obtain ⟨-, reports⟩ := List.append_eq_nil_iff.mp clean
  cases found : (readExpression source).1 with
  | some expression => exact ⟨expression, Prod.ext found clean⟩
  | none => exact absurd (List.map_eq_nil_iff.mp reports) (exists_report found)

end Program

/-! ## Steps that go by the flags -/

namespace Session

/-- A session whose step was refused. -/
def refusing (session : Session) (told : List Diagnostic) : Session :=
  { session with log := session.log.reset.reportAll told }

/-- Runs a program, asking the flags of the log behind each stage whether to go on. -/
def runByFlags (allowance : Nat) (source : String) (session : Session) :
    Option (Status × Session) :=
  let items := Scan.items source
  let tokens := Scan.tokens items
  let log := session.log.reset.reportAll ((Scan.faults items).map LexicalFault.diagnostic)
  let (program, problems) := Program.told tokens (Program.parse tokens)
  let log := log.reportAll problems
  if log.hadError then some (.compileError, { session with log })
  else
    let log := log.reportAll ((Program.mistakes program).map ScopeReport.diagnostic)
    if log.hadError then some (.compileError, { session with log })
    else behindRun log (session.machine.interpret allowance (Program.bound program))

/-- Evaluates an expression if there is one and no flag is up. -/
def evaluateByFlags (allowance : Nat) (source : String) (session : Session) :
    Option (Except Status Value × Session) :=
  let items := Scan.items source
  let tokens := Scan.tokens items
  let log := session.log.reset.reportAll ((Scan.faults items).map LexicalFault.diagnostic)
  let (expression, problems) := Program.told tokens (Program.parseExpression tokens)
  let log := log.reportAll problems
  match expression with
  | none => some (.error .compileError, { session with log })
  | some expression =>
    if log.hadError then some (.error .compileError, { session with log })
    else behindValue log (Action.evaluate allowance expression session.machine)

section

variable (allowance : Nat) (source : String) (session : Session)

/-- The parts of a step, each of which needs the ones before to find nothing. -/
lemma run_stages :
    session.run allowance source =
      let (program, problems) := Program.read source
      let mistakes := (Program.mistakes program).map ScopeReport.diagnostic
      if problems ≠ [] then some (.compileError, session.refusing problems)
      else if mistakes ≠ [] then some (.compileError, session.refusing mistakes)
      else behindRun session.log.reset
        (session.machine.interpret allowance (Program.bound program)) := by
  rw [run, runOf, Compilation.ofSource]
  rcases Program.read source with ⟨program, _ | ⟨first, others⟩⟩
  · cases mistakes : (Program.mistakes program).map ScopeReport.diagnostic with
    | nil =>
        simp only [Compilation.runnable?, mistakes, List.isEmpty_nil, if_true, ne_eq,
          not_true_eq_false, if_false]
        rfl
    | cons first others => simp [Compilation.runnable?, mistakes, refusing]
  · simp [Compilation.runnable?, refusing]

lemma evaluate_stages :
    session.evaluate allowance source =
      match Program.readExpression source with
      | (some expression, []) =>
        behindValue session.log.reset (Action.evaluate allowance expression session.machine)
      | (_, problems) => some (.error .compileError, session.refusing problems) := by
  rw [evaluate, evaluateOf]
  rcases Program.readExpression source with ⟨_ | expression, _ | ⟨first, others⟩⟩ <;> rfl

variable {source} in
lemma evaluate_accepted {expression : Expr}
    (read : Program.readExpression source = (some expression, [])) :
    session.evaluate allowance source =
      behindValue session.log.reset (Action.evaluate allowance expression session.machine) := by
  rw [evaluate_stages, read]

lemma evaluate_refused (text : (Program.readExpression source).2 ≠ []) :
    session.evaluate allowance source =
      some (.error .compileError, session.refusing (Program.readExpression source).2) := by
  rw [evaluate_stages]
  split
  · rename_i read
    exact absurd (congrArg Prod.snd read) text
  · rename_i read
    rw [read]

/-- What is reported at two places is asked for once. -/
lemma runByFlags_stages :
    session.runByFlags allowance source =
      let (program, problems) := Program.read source
      let log := session.log.reset.reportAll problems
      if log.hadError then some (.compileError, { session with log })
      else
        let log := log.reportAll ((Program.mistakes program).map ScopeReport.diagnostic)
        if log.hadError then some (.compileError, { session with log })
        else behindRun log (session.machine.interpret allowance (Program.bound program)) := by
  simp only [runByFlags, Program.read, ← Log.reportAll_reportAll]

lemma evaluateByFlags_stages :
    session.evaluateByFlags allowance source =
      let (expression, problems) := Program.readExpression source
      let log := session.log.reset.reportAll problems
      match expression with
      | none => some (.error .compileError, { session with log })
      | some expression =>
        if log.hadError then some (.error .compileError, { session with log })
        else behindValue log (Action.evaluate allowance expression session.machine) := by
  simp only [evaluateByFlags, Program.readExpression, ← Log.reportAll_reportAll]

/-- **To run a program by the flags is to run it.** -/
theorem runByFlags_eq : session.runByFlags allowance source = session.run allowance source := by
  have flag := Log.hadError_reset session.log (Program.early_read source)
  rw [run_stages, runByFlags_stages]
  revert flag
  rcases Program.read source with ⟨program, _ | ⟨first, others⟩⟩ <;> intro flag
  · have flag := Log.hadError_reset session.log (Program.early_mistakes program)
    have none_ : session.log.reset.reportAll [] = session.log.reset := rfl
    simp only [none_, flag]
    cases (Program.mistakes program).map ScopeReport.diagnostic <;> rfl
  · exact if_pos flag

/-- **To evaluate an expression by the flags is to evaluate it.** -/
theorem evaluateByFlags_eq :
    session.evaluateByFlags allowance source = session.evaluate allowance source := by
  have flag := Log.hadError_reset session.log (Program.early_readExpression source)
  rw [evaluate_stages, evaluateByFlags_stages]
  revert flag
  rcases Program.readExpression source with ⟨_ | expression, _ | ⟨first, others⟩⟩ <;> intro flag
  · rfl
  · rfl
  · rfl
  · exact if_pos flag

end

end Session

/-! ## What the added diagnostics tell -/

/-- What the diagnostics that a step adds tell of its end. -/
structure Status.Tells (status : Status) (told : List Diagnostic) : Prop where
  completed : status = .completed ↔ told = []
  runtimeError : status = .runtimeError ↔ ∃ only, told = [only] ∧ only.stage = .execution
  compileError : status = .compileError ↔ told ≠ [] ∧ ∀ one ∈ told, one.stage ≠ .execution
  /-- What is told of characters stands before what is told of tokens. -/
  ordered : told.Pairwise fun before after => before.stage = .tokens → after.stage ≠ .characters
  /-- Names are looked at only where nothing else is wrong. -/
  apart : (∃ one ∈ told, one.stage = .names) → ∀ one ∈ told, one.stage = .names

namespace Status

lemma tells_nothing : Status.completed.Tells [] where
  completed := by simp
  runtimeError := by simp
  compileError := by simp
  ordered := .nil
  apart := by simp

lemma tells_fault (fault : Fault) : Status.runtimeError.Tells [fault.diagnostic] where
  completed := by simp
  runtimeError := by simp
  compileError := by simp
  ordered := List.pairwise_singleton _ _
  apart := by simp

/-- A step that is refused tells of something that was found before any execution. -/
lemma tells_refused {told : List Diagnostic} (some_ : told ≠ [])
    (early : ∀ one ∈ told, one.stage ≠ .execution)
    (ordered : told.Pairwise fun before after =>
      before.stage = .tokens → after.stage ≠ .characters)
    (apart : (∃ one ∈ told, one.stage = .names) → ∀ one ∈ told, one.stage = .names) :
    Status.compileError.Tells told where
  completed := by simp [some_]
  runtimeError := by
    refine iff_of_false nofun ?_
    rintro ⟨only, rfl, late⟩
    exact early only List.mem_cons_self late
  compileError := iff_of_true rfl ⟨some_, early⟩
  ordered := ordered
  apart := apart

/-- Whatever is wrong with a text, nothing is told of its names. -/
lemma tells_problems (faults : List LexicalFault) (endMark : Token) (reports : List SyntaxReport)
    (some_ : faults.map LexicalFault.diagnostic ++ reports.map (·.diagnostic endMark) ≠ []) :
    Status.compileError.Tells
        (faults.map LexicalFault.diagnostic ++ reports.map (·.diagnostic endMark)) ∧
      ∀ one ∈ faults.map LexicalFault.diagnostic ++ reports.map (·.diagnostic endMark),
        one.stage ≠ .names := by
  obtain ⟨stages, ordered⟩ := Program.told_stages faults endMark reports
  have nameless : ∀ one ∈ faults.map LexicalFault.diagnostic ++ reports.map (·.diagnostic endMark),
      one.stage ≠ .names := by
    intro one mem same
    rcases stages one mem with found | found <;> rw [found] at same <;> cases same
  refine ⟨tells_refused some_ (fun one mem => Stage.early (stages one mem)) ordered ?_, nameless⟩
  rintro ⟨one, mem, found⟩
  exact absurd found (nameless one mem)

lemma tells_mistakes {program : List Stmt}
    (some_ : (Program.mistakes program).map ScopeReport.diagnostic ≠ []) :
    Status.compileError.Tells ((Program.mistakes program).map ScopeReport.diagnostic) := by
  have named : ∀ one ∈ (Program.mistakes program).map ScopeReport.diagnostic,
      one.stage = .names := by
    intro one mem
    obtain ⟨mistake, -, rfl⟩ := List.mem_map.mp mem
    rfl
  refine tells_refused some_ (Program.early_mistakes program) ?_ fun _ => named
  refine List.pairwise_map.mpr (List.pairwise_of_forall fun _ _ same => ?_)
  cases same

end Status

namespace Session

/-- What a step adds to the log of a session. -/
structure Adds (session after : Session) (told : List Diagnostic) : Prop where
  /-- What was there before keeps its place. -/
  pending : after.log.pending = session.log.pending ++ told
  /-- The flags tell of this step only. -/
  hadError : after.log.hadError = told.any (!·.isRuntime)
  hadRuntimeError : after.log.hadRuntimeError = told.any (·.isRuntime)

lemma adds_reportAll (session : Session) (machine : Machine) (told : List Diagnostic) :
    session.Adds ⟨machine, session.log.reset.reportAll told⟩ told := by
  rw [Log.reportAll_eq]
  exact ⟨rfl, rfl, rfl⟩

lemma behindRun_told {session after : Session} {ran : Option (Option Fault × Machine)}
    {status : Status} (ended : behindRun session.log.reset ran = some (status, after)) :
    ∃ told, session.Adds after told ∧ status.Tells told := by
  rcases ran with _ | ⟨_ | fault, machine⟩ <;> cases ended
  · exact ⟨[], session.adds_reportAll machine [], Status.tells_nothing⟩
  · exact ⟨_, session.adds_reportAll machine [fault.diagnostic], Status.tells_fault fault⟩

lemma behindValue_told {session after : Session} {outcome : Outcome Value}
    {result : Except Status Value}
    (ended : behindValue session.log.reset outcome = some (result, after)) :
    ∃ told, session.Adds after told ∧ (Answer.ofResult result).1.Tells told ∧
      ((∃ value, result = .ok value) ↔ told = []) ∧ ∀ one ∈ told, one.stage ≠ .names := by
  cases outcome with
  | done value machine =>
      cases ended
      exact ⟨[], session.adds_reportAll machine [], Status.tells_nothing, by simp, by simp⟩
  | failed fault machine =>
      cases ended
      exact ⟨_, session.adds_reportAll machine [fault.diagnostic], Status.tells_fault fault,
        by simp, by simp⟩
  | exhausted => cases ended

/-- **Status and diagnostics agree.**  Whatever is in the log before a step and whichever of its flags
are up: what was there keeps its place, and what the step adds and how it ends can be told from each
other.  Nothing is added exactly if the step is completed; one thing that came up in the execution,
exactly if it was stopped; and otherwise things that are wrong with the text, those about characters
before those about tokens, or else things that are wrong with names, and these only in programs.  So
steps can as well go by the flags. -/
theorem status_told (session : Session) (allowance : Nat) (source : String) :
    session.runByFlags allowance source = session.run allowance source ∧
      session.evaluateByFlags allowance source = session.evaluate allowance source ∧
      (∀ status after, session.run allowance source = some (status, after) →
        ∃ told, session.Adds after told ∧ status.Tells told) ∧
      ∀ result after, session.evaluate allowance source = some (result, after) →
        ∃ told, session.Adds after told ∧ (Answer.ofResult result).1.Tells told ∧
          ((∃ value, result = .ok value) ↔ told = []) ∧ ∀ one ∈ told, one.stage ≠ .names := by
  refine ⟨runByFlags_eq allowance source session, evaluateByFlags_eq allowance source session,
    fun status after ran => ?_, fun result after found => ?_⟩
  · rw [run_stages] at ran
    dsimp only at ran
    split_ifs at ran with text names
    · cases ran
      exact ⟨_, session.adds_reportAll _ _, (Status.tells_problems _ _ _ text).1⟩
    · cases ran
      exact ⟨_, session.adds_reportAll _ _, Status.tells_mistakes names⟩
    · exact behindRun_told ran
  · by_cases text : (Program.readExpression source).2 = []
    · obtain ⟨expression, read⟩ := Program.exists_expression text
      rw [evaluate_accepted allowance session read] at found
      exact behindValue_told found
    · obtain ⟨tells, nameless⟩ := Status.tells_problems _ _ _ text
      rw [evaluate_refused allowance source session text] at found
      cases found
      exact ⟨_, session.adds_reportAll _ _, tells, by simp [text], nameless⟩

/-- The sink refuses its first flush in its own words, which stops a step; the flag stays up, and what is
told waits.  The steps behind it are refused, completed and stopped by an undefined variable. -/
theorem status_told_steps :
    let writer : Writer :=
      ⟨fun _ bytes => ⟨none, bytes⟩, fun past => ⟨if past.isEmpty then some ⟨"gone"⟩ else none, .empty⟩⟩
    let session := start (.host writer [] .empty) fun _ => 0
    let told (before after : Session) (status : Status) :=
      ∃ told, before.Adds after told ∧ status.Tells told
    ∃ first second third fourth fifth : Session,
      session.run 20 "var a;" = some (.runtimeError, first) ∧ told session first .runtimeError ∧
      first.run 20 "@ print ;" = some (.compileError, second) ∧ told first second .compileError ∧
      second.run 20 "print a;" = some (.completed, third) ∧ told second third .completed ∧
      third.run 20 "b;" = some (.runtimeError, fourth) ∧ told third fourth .runtimeError ∧
      fourth.evaluate 20 "@ print ;" = some (.error .compileError, fifth) ∧
      told fourth fifth .compileError ∧
      first.log.pending = [.output "gone"] ∧
      fourth.log.pending.map Diagnostic.stage = [.execution, .characters, .tokens, .execution] := by
  intro writer session told
  have one : (session.run 20 "var a;").map (fun told => (told.1, told.2.log.pending)) =
      some (.runtimeError, [.output "gone"]) := by
    simp only [session, writer]
    decide +kernel
  have two : ((session.run 20 "var a;").bind fun told => told.2.run 20 "@ print ;").map Prod.fst =
      some .compileError := by
    simp only [session, writer]
    decide +kernel
  have three : (((session.run 20 "var a;").bind fun told => told.2.run 20 "@ print ;").bind
      fun told => told.2.run 20 "print a;").map Prod.fst = some .completed := by
    simp only [session, writer]
    decide +kernel
  have four : ((((session.run 20 "var a;").bind fun told => told.2.run 20 "@ print ;").bind
      fun told => told.2.run 20 "print a;").bind fun told => told.2.run 20 "b;").map
        (fun told => (told.1, told.2.log.pending.map Diagnostic.stage)) =
      some (.runtimeError, [.execution, .characters, .tokens, .execution]) := by
    simp only [session, writer]
    decide +kernel
  have read : (Program.readExpression "@ print ;").2.map Diagnostic.stage =
      [.characters, .tokens] := by decide +kernel
  clear_value session
  obtain ⟨⟨status, first⟩, ran, same⟩ := Option.map_eq_some_iff.mp one
  obtain ⟨rfl, waits⟩ := Prod.mk.inj same
  rw [ran, Option.bind_some] at two three four
  obtain ⟨⟨status, second⟩, refused, rfl⟩ := Option.map_eq_some_iff.mp two
  rw [refused, Option.bind_some] at three four
  obtain ⟨⟨status, third⟩, completed, rfl⟩ := Option.map_eq_some_iff.mp three
  rw [completed, Option.bind_some] at four
  obtain ⟨⟨status, fourth⟩, stopped, same⟩ := Option.map_eq_some_iff.mp four
  obtain ⟨rfl, stages⟩ := Prod.mk.inj same
  have found := evaluate_refused 20 "@ print ;" fourth fun none_ => by rw [none_] at read; cases read
  obtain ⟨only, adds, tells, -, -⟩ := (status_told fourth 20 "@ print ;").2.2.2 _ _ found
  exact ⟨first, second, third, fourth, _, ran, (status_told session 20 "var a;").2.2.1 _ _ ran,
    refused, (status_told first 20 "@ print ;").2.2.1 _ _ refused,
    completed, (status_told second 20 "print a;").2.2.1 _ _ completed,
    stopped, (status_told third 20 "b;").2.2.1 _ _ stopped, found, ⟨only, adds, tells⟩, waits, stages⟩

end Session

end LoxLang
