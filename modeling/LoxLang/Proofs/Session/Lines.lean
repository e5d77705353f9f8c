import Mathlib
import LoxLang.Proofs.Binding.Joined
import LoxLang.Proofs.Evaluation.Revised
import LoxLang.Proofs.Evaluation.SideBySide
import LoxLang.Proofs.Session.Refusal

/-!
# Sessions that differ in lines

What a session answers depends on the lines of its tokens only where a diagnostic tells one.  Two
sessions that keep the same declarations, some of them some lines lower in one of the two, are told
apart by nothing else.

To follow both at once the tokens are marked: a line is doubled, and made odd where the token stands
lower in the other session.  One run of the marked session is then a run of each of the two.

* `Session.revised`, `Answer.revised` — a session and an answer on other lines.
* `Session.runOf_revised`, `Session.evaluateOf_revised` — its steps.
* `Session.Lowered`, `Answer.Lowered` — what two sessions and two answers have in common that differ in
  lines in this way.
* **`Session.Marked.respondAll`**, **`Session.Marked.lowered`** — two sessions out of one marked session.
-/

namespace LoxLang

/-! ## Sessions on other lines -/

/-- A problem on another line. -/
def Diagnostic.revised (r : Revision) : Diagnostic → Diagnostic
  | lexical line text => lexical (r.line line) text
  | grammatical place text => grammatical (place.revised r) text
  | scoping place text => scoping (place.revised r) text
  | runtime line text => runtime (r.line line) text
  | output text => output text

/-- A log of problems on other lines. -/
def Log.revised (r : Revision) (log : Log) : Log :=
  { log with pending := log.pending.map (Diagnostic.revised r) }

/-- A session with its declarations and its problems on other lines. -/
def Session.revised (r : Revision) (session : Session) : Session :=
  ⟨session.machine.revised r, session.log.revised r⟩

@[simp] lemma Session.sink_revised (r : Revision) (session : Session) :
    (session.revised r).machine.sink = session.machine.sink := rfl

@[simp] lemma Session.hadError_revised (r : Revision) (session : Session) :
    (session.revised r).log.hadError = session.log.hadError := rfl

@[simp] lemma Session.hadRuntimeError_revised (r : Revision) (session : Session) :
    (session.revised r).log.hadRuntimeError = session.log.hadRuntimeError := rfl

/-- An answer with its declarations and its problems on other lines. -/
def Answer.revised (r : Revision) (answer : Answer) : Answer :=
  ⟨answer.status, answer.value.map (Value.revised r),
    answer.diagnostics.map (Diagnostic.revised r), answer.sink⟩

/-- A program and its problems on other lines. -/
def Compilation.revised (r : Revision) (compilation : Compilation) : Compilation :=
  ⟨Stmt.revisedAll r compilation.tree, compilation.bound?.map (Stmt.revisedAll r),
    compilation.problems.map (Diagnostic.revised r)⟩

/-- An expression and its problems on other lines. -/
def Expr.toldRevised (r : Revision) (told : Option Expr × List Diagnostic) :
    Option Expr × List Diagnostic :=
  (told.1.map (Expr.revised r), told.2.map (Diagnostic.revised r))

/-! ### One revision after another -/

section

variable (second first : Revision)

lemma Diagnostic.revised_comp (diagnostic : Diagnostic) :
    diagnostic.revised (second.comp first) = (diagnostic.revised first).revised second := by
  cases diagnostic <;> rfl

lemma Diagnostic.map_revised_comp (diagnostics : List Diagnostic) :
    diagnostics.map (Diagnostic.revised (second.comp first)) =
      (diagnostics.map (Diagnostic.revised first)).map (Diagnostic.revised second) := by
  rw [List.map_map]
  exact List.map_congr_left fun diagnostic _ => diagnostic.revised_comp second first

lemma Diagnostic.map_revised_same (diagnostics : List Diagnostic) :
    diagnostics.map (Diagnostic.revised .same) = diagnostics := by
  refine (List.map_congr_left fun diagnostic _ => ?_).trans (List.map_id diagnostics)
  cases diagnostic <;> rfl

lemma Stmt.revisedAll_same (stmts : List Stmt) : Stmt.revisedAll .same stmts = stmts :=
  Stmt.revisedAll_eq_self rfl stmts fun _ _ => rfl

lemma Session.revised_comp (session : Session) :
    session.revised (second.comp first) = (session.revised first).revised second := by
  simp only [Session.revised, Machine.revised_comp, Log.revised, Diagnostic.map_revised_comp]

lemma Session.revised_same (session : Session) : session.revised .same = session := by
  simp only [Session.revised, Machine.revised_same, Log.revised, Diagnostic.map_revised_same]

lemma Compilation.revised_comp (compilation : Compilation) :
    compilation.revised (second.comp first) = (compilation.revised first).revised second := by
  simp only [Compilation.revised, Stmt.revisedAll_comp, Diagnostic.map_revised_comp, Option.map_map]
  congr 2
  exact funext fun stmts => Stmt.revisedAll_comp second first stmts

lemma Compilation.revised_same (compilation : Compilation) :
    compilation.revised .same = compilation := by
  have stmts : Stmt.revisedAll .same = id := funext Stmt.revisedAll_same
  simp only [Compilation.revised, stmts, Option.map_id, id, Diagnostic.map_revised_same]

lemma Expr.toldRevised_comp (told : Option Expr × List Diagnostic) :
    Expr.toldRevised (second.comp first) told =
      Expr.toldRevised second (Expr.toldRevised first told) := by
  simp only [Expr.toldRevised, Expr.map_revised_comp, Diagnostic.map_revised_comp]

lemma Expr.toldRevised_same (told : Option Expr × List Diagnostic) :
    Expr.toldRevised .same told = told := by
  simp only [Expr.toldRevised, Diagnostic.map_revised_same]
  rw [Expr.map_revised_eq_self rfl told.1 fun _ _ => rfl]

end

/-! ### Logs -/

section

variable {r : Revision}

lemma Log.report_revised (log : Log) (diagnostic : Diagnostic) :
    (log.revised r).report (diagnostic.revised r) = (log.report diagnostic).revised r := by
  have kind : (diagnostic.revised r).isRuntime = diagnostic.isRuntime := by cases diagnostic <;> rfl
  simp only [Log.report, Log.revised, kind, List.map_append, List.map_cons, List.map_nil]

lemma Log.reportAll_revised (log : Log) (diagnostics : List Diagnostic) :
    (log.revised r).reportAll (diagnostics.map (Diagnostic.revised r)) =
      (log.reportAll diagnostics).revised r := by
  simp only [Log.reportAll]
  induction diagnostics generalizing log with
  | nil => rfl
  | cons diagnostic others ih =>
      rw [List.map_cons, List.foldl_cons, List.foldl_cons, report_revised]
      exact ih (log.report diagnostic)

lemma Fault.diagnostic_revised (fault : Fault) :
    (fault.revised r).diagnostic = fault.diagnostic.revised r := by
  cases fault <;> rfl

/-! ## Steps -/

namespace Session

/-- A step ends on other lines as it does on its own. -/
lemma behindRun_revised (log : Log) (ran : Option (Option Fault × Machine)) :
    behindRun (log.revised r) (ran.map fun told => (told.1.map (Fault.revised r), told.2.revised r)) =
      (behindRun log ran).map (Prod.map id (Session.revised r)) := by
  rcases ran with _ | ⟨_ | fault, after⟩
  · rfl
  · rfl
  · simp only [behindRun, Option.map_some, Prod.map, id, Session.revised, Fault.diagnostic_revised,
      Log.report_revised]

lemma behindValue_revised (log : Log) (outcome : Outcome Value) :
    behindValue (log.revised r) (outcome.revised r (Value.revised r)) =
      (behindValue log outcome).map (Prod.map (Except.map (Value.revised r)) (Session.revised r)) := by
  cases outcome with
  | done value after => rfl
  | failed fault after =>
      simp only [behindValue, Outcome.revised, Option.map_some, Prod.map, Except.map, Session.revised,
        Fault.diagnostic_revised, Log.report_revised]
  | exhausted => rfl

variable {session : Session} (lines : r.hops = id) (unhosted : session.machine.Unhosted)

include lines unhosted

/-- **A program on other lines does the same to a session on other lines.** -/
theorem runOf_revised (allowance : Nat) (compilation : Compilation) :
    (session.revised r).runOf allowance (compilation.revised r) =
        (session.runOf allowance compilation).map (Prod.map id (Session.revised r)) ∧
      ∀ told, session.runOf allowance compilation = some told →
        session.machine.SameHost told.2.machine := by
  have log : (session.revised r).log.reset.reportAll (compilation.revised r).problems =
      (session.log.reset.reportAll compilation.problems).revised r :=
    Log.reportAll_revised session.log.reset compilation.problems
  have runnable : (compilation.revised r).runnable? =
      compilation.runnable?.map (Stmt.revisedAll r) := by
    simp only [Compilation.runnable?, Compilation.revised, List.isEmpty_map]
    split_ifs <;> rfl
  simp only [runOf, log, runnable]
  cases compilation.runnable? with
  | none => exact ⟨rfl, fun told same => by cases same; exact .refl _⟩
  | some program =>
      have ran := Tabled.interpret_revised id r allowance program unhosted
      rw [lines, Function.comp_id, Tabled.interpret_untabled, Tabled.interpret_untabled] at ran
      have machine : (session.revised r).machine = session.machine.revised r := rfl
      simp only [Option.map_some, machine, ran.1]
      refine ⟨behindRun_revised _ _, fun told same => ?_⟩
      cases given : session.machine.interpret allowance program with
      | none => rw [given] at same; cases same
      | some ended =>
          have host := ran.2 _ given
          obtain ⟨_ | fault, after⟩ := ended <;> rw [given] at same <;> cases same <;> exact host

/-- **An expression on other lines does the same to a session on other lines.** -/
theorem evaluateOf_revised (allowance : Nat) (told : Option Expr × List Diagnostic) :
    (session.revised r).evaluateOf allowance (Expr.toldRevised r told) =
        (session.evaluateOf allowance told).map
          (Prod.map (Except.map (Value.revised r)) (Session.revised r)) ∧
      ∀ given, session.evaluateOf allowance told = some given →
        session.machine.SameHost given.2.machine := by
  have log : (session.revised r).log.reset.reportAll (Expr.toldRevised r told).2 =
      (session.log.reset.reportAll told.2).revised r :=
    Log.reportAll_revised session.log.reset told.2
  simp only [evaluateOf, log]
  obtain ⟨_ | expression, _ | ⟨problem, problems⟩⟩ := told
  case some.nil =>
    obtain ⟨ran, host⟩ := (Tabled.revised id r allowance).evaluate expression session.machine unhosted
    rw [lines, Function.comp_id, Tabled.evaluate_untabled,
      Tabled.evaluate_untabled] at ran
    rw [lines, Function.comp_id, Tabled.evaluate_untabled] at host
    have machine : (session.revised r).machine = session.machine.revised r := rfl
    simp only [Expr.toldRevised, Option.map_some, List.map_nil, machine, ran]
    refine ⟨behindValue_revised _ _, fun told same => ?_⟩
    cases given : Action.evaluate allowance expression session.machine with
    | done value after => rw [given] at same host; cases same; exact host
    | failed fault after => rw [given] at same host; cases same; exact host
    | exhausted => rw [given] at same; cases same
  all_goals exact ⟨rfl, fun told same => by cases same; exact .refl _⟩

end Session

end

/-! ## Marks -/

namespace Revision

/-- Marks tokens that stand where they stand. -/
def even : Revision := ⟨(2 * ·), id⟩

/-- Marks tokens that stand lower in the other session. -/
def odd : Revision := ⟨(2 * · + 1), id⟩

/-- Removes the marks. -/
def unmark : Revision := ⟨(· / 2), id⟩

/-- Removes the marks and puts the tokens that were odd lower. -/
def lower (lines : Nat) : Revision := ⟨fun line => line / 2 + line % 2 * lines, id⟩

/-- Puts all tokens on one line. -/
def lineless : Revision := ⟨fun _ => 0, id⟩

lemma unmark_even : unmark.comp even = same :=
  Revision.ext (funext fun line => by simp [comp, unmark, even, same]) rfl

lemma unmark_odd : unmark.comp odd = same :=
  Revision.ext (funext fun line => by simp [comp, unmark, odd, same]; omega) rfl

lemma lower_even (lines : Nat) : (lower lines).comp even = same :=
  Revision.ext (funext fun line => by simp [comp, lower, even, same]) rfl

lemma lower_odd (lines : Nat) : (lower lines).comp odd = down lines := by
  refine Revision.ext (funext fun line => ?_) rfl
  have half : (2 * line + 1) / 2 = line := by omega
  have odd_ : (2 * line + 1) % 2 = 1 := by omega
  simp only [comp, lower, odd, down, Function.comp, half, odd_, Nat.one_mul]

/-- Where no lines are left, none can have been changed before. -/
lemma lineless_comp {r : Revision} (hops : r.hops = id) : lineless.comp r = lineless := by
  rw [comp, hops]
  rfl

lemma lower_cases (lines line : Nat) : (lower lines).line line = unmark.line line ∨
    (lower lines).line line = (down lines).line (unmark.line line) := by
  rcases Nat.mod_two_eq_zero_or_one line with mark | mark
  · left; simp [lower, unmark, mark]
  · right; simp [lower, unmark, down, mark]

end Revision

/-- The problem is the same, or the same some lines lower. -/
def Diagnostic.Lowered (lines : Nat) (upper lower : Diagnostic) : Prop :=
  lower = upper ∨ lower = upper.revised (.down lines)

/-- Two answers that differ in lines, some of which are greater in the second one. -/
structure Answer.Lowered (lines : Nat) (upper lower : Answer) : Prop where
  status : lower.status = upper.status
  value : lower.value.map (Value.revised .lineless) = upper.value.map (Value.revised .lineless)
  diagnostics : List.Forall₂ (Diagnostic.Lowered lines) upper.diagnostics lower.diagnostics
  sink : lower.sink = upper.sink

/-- Two sessions that differ in lines, some of which are greater in the second one: they agree in all
that they keep, and in the answers to whatever they are asked. -/
structure Session.Lowered (lines : Nat) (upper lower : Session) : Prop where
  sink : lower.machine.sink = upper.machine.sink
  diagnostics : List.Forall₂ (Diagnostic.Lowered lines) upper.log.pending lower.log.pending
  hadError : lower.log.hadError = upper.log.hadError
  hadRuntimeError : lower.log.hadRuntimeError = upper.log.hadRuntimeError
  machine : lower.machine.revised .lineless = upper.machine.revised .lineless
  answers : ∀ requests, Option.Rel (List.Forall₂ (Answer.Lowered lines))
    ((upper.respondAll requests).map Prod.fst) ((lower.respondAll requests).map Prod.fst)

section

variable {lines : Nat}

lemma Diagnostic.lowered (lines : Nat) (marked : Diagnostic) :
    (marked.revised .unmark).Lowered lines (marked.revised (.lower lines)) := by
  have line := Revision.lower_cases lines
  cases marked with
  | lexical at_ text => exact (line at_).imp (congrArg (lexical · text)) (congrArg (lexical · text))
  | runtime at_ text => exact (line at_).imp (congrArg (runtime · text)) (congrArg (runtime · text))
  | grammatical place text =>
      exact (line place.line).imp (fun same => by simp only [revised, Token.revised, same])
        fun same => by simp only [revised, Token.revised, same]
  | scoping place text =>
      exact (line place.line).imp (fun same => by simp only [revised, Token.revised, same])
        fun same => by simp only [revised, Token.revised, same]
  | output text => exact .inl rfl

lemma Diagnostic.lowered_map (lines : Nat) : ∀ marked : List Diagnostic,
    List.Forall₂ (Diagnostic.Lowered lines) (marked.map (Diagnostic.revised .unmark))
      (marked.map (Diagnostic.revised (.lower lines)))
  | [] => .nil
  | first :: others => .cons (first.lowered lines) (lowered_map lines others)

lemma Answer.lowered (lines : Nat) (marked : Answer) :
    (marked.revised .unmark).Lowered lines (marked.revised (.lower lines)) := by
  refine ⟨rfl, ?_, Diagnostic.lowered_map lines marked.diagnostics, rfl⟩
  cases held : marked.value with
  | none => simp [revised, held]
  | some value =>
      simp only [revised, held, Option.map_some]
      rw [← Value.revised_comp, ← Value.revised_comp, Revision.lineless_comp rfl,
        Revision.lineless_comp rfl]

namespace Session

/-- Two sessions out of one whose tokens are marked. -/
def Marked (lines : Nat) (upper lower : Session) : Prop :=
  ∃ marked : Session, marked.machine.Unhosted ∧ upper = marked.revised .unmark ∧
    lower = marked.revised (.lower lines)

/-- The answer of a marked session, where the new tokens stand where they stand. -/
def respondMarked (allowance : Nat) (marked : Session) : Request → Option (Answer × Session)
  | .run source => (marked.runOf allowance ((Compilation.ofSource source).revised .even)).map
      fun told => answered (told.1, none) told.2
  | .evaluate source =>
    (marked.evaluateOf allowance (Expr.toldRevised .even (Program.readExpression source))).map
      fun told => answered (Answer.ofResult told.1) told.2

lemma respond_revised {r : Revision} (hops : r.hops = id) (marks : r.comp .even = .same)
    {marked : Session} (unhosted : marked.machine.Unhosted) (allowance : Nat) (request : Request) :
    (marked.revised r).respond allowance request =
        (marked.respondMarked allowance request).map
          (Prod.map (Answer.revised r) (Session.revised r)) ∧
      ∀ told, marked.respondMarked allowance request = some told → told.2.machine.Unhosted := by
  cases request with
  | run source =>
      have same : ((Compilation.ofSource source).revised .even).revised r = .ofSource source := by
        rw [← Compilation.revised_comp, marks, Compilation.revised_same]
      obtain ⟨ran, host⟩ := runOf_revised hops unhosted allowance
        ((Compilation.ofSource source).revised .even)
      rw [respond, run, ← same, ran, respondMarked]
      cases given : marked.runOf allowance ((Compilation.ofSource source).revised .even) with
      | none => exact ⟨rfl, fun told h => by cases h⟩
      | some told => exact ⟨rfl, fun answer h => by cases h; exact (host told given).unhosted unhosted⟩
  | evaluate source =>
      have same : Expr.toldRevised r (Expr.toldRevised .even (Program.readExpression source)) =
          Program.readExpression source := by
        rw [← Expr.toldRevised_comp, marks, Expr.toldRevised_same]
      obtain ⟨ran, host⟩ := evaluateOf_revised hops unhosted allowance
        (Expr.toldRevised .even (Program.readExpression source))
      rw [respond, evaluate, ← same, ran, respondMarked]
      cases given : marked.evaluateOf allowance
          (Expr.toldRevised .even (Program.readExpression source)) with
      | none => exact ⟨rfl, fun told h => by cases h⟩
      | some told =>
          refine ⟨?_, fun answer h => by cases h; exact (host told given).unhosted unhosted⟩
          obtain ⟨result, after⟩ := told
          cases result <;> rfl

/-- **Sessions out of one marked session answer alike.** -/
theorem Marked.respondAll {upper lower : Session} (both : Marked lines upper lower)
    (requests : List (Nat × Request)) : Option.Rel (List.Forall₂ (Answer.Lowered lines))
      ((upper.respondAll requests).map Prod.fst) ((lower.respondAll requests).map Prod.fst) := by
  induction requests generalizing upper lower with
  | nil => exact .some .nil
  | cons first others ih =>
      obtain ⟨marked, unhosted, rfl, rfl⟩ := both
      obtain ⟨allowance, request⟩ := first
      obtain ⟨above, host⟩ := respond_revised rfl Revision.unmark_even unhosted allowance request
      obtain ⟨below, _⟩ :=
        respond_revised rfl (Revision.lower_even lines) unhosted allowance request
      simp only [Session.respondAll, above, below]
      cases given : marked.respondMarked allowance request with
      | none => exact .none
      | some told =>
          have rest := ih ⟨told.2, host told given, rfl, rfl⟩
          simp only [Option.map_some, Option.bind_some, Prod.map]
          have more := rel_map rest fun _ _ same => List.Forall₂.cons (told.1.lowered lines) same
          rw [Option.map_map, Option.map_map] at more ⊢
          exact more

/-- **Sessions out of one marked session differ in lines only.** -/
theorem Marked.lowered {upper lower : Session} (both : Marked lines upper lower) :
    upper.Lowered lines lower := by
  have answers := both.respondAll
  obtain ⟨marked, unhosted, rfl, rfl⟩ := both
  refine ⟨by simp, Diagnostic.lowered_map lines marked.log.pending, by simp, by simp, ?_, answers⟩
  simp only [revised]
  rw [← Machine.revised_comp, ← Machine.revised_comp, Revision.lineless_comp rfl,
    Revision.lineless_comp rfl]

end Session

end

end LoxLang
