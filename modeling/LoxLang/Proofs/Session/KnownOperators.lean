import Mathlib
import LoxLang.Proofs.Evaluation.KnownOperators
import LoxLang.Proofs.Session.CurrentScope
import LoxLang.Proofs.Session.Diagnostics

/-!
# No step fails for an unknown operator

What a session runs and evaluates was read, and what was read is well formed.  The functions that are
kept from earlier steps were declared by such programs.

* `Diagnostic.Known` — a diagnostic without the wording of an unknown operator.
* `Machine.WellFormed.interpret` — the run of a whole program, its flush included.
* `Session.WellFormed` — what every step of a session keeps; `Session.WellFormed.answer`, one step.
* **`Session.operators_known`** — all trees are well formed, so no step fails for an unknown operator.
-/

namespace LoxLang

/-- A diagnostic without the wording of an unknown operator. -/
def Diagnostic.Known (diagnostic : Diagnostic) : Prop :=
  ∀ line, diagnostic ≠ .runtime line RuntimeError.unknownUnary.message ∧
    diagnostic ≠ .runtime line RuntimeError.unknownBinary.message

lemma Diagnostic.Known.of_early {diagnostic : Diagnostic} (early : diagnostic.stage ≠ .execution) :
    diagnostic.Known := by
  intro line
  constructor <;> rintro rfl <;> exact early rfl

lemma Fault.Known.diagnostic {fault : Fault} (known : fault.Known) : fault.diagnostic.Known := by
  cases fault with
  | runtime error line =>
      intro line'
      constructor <;> intro same <;> injection same with _ text
      · exact known.message_ne.1 text
      · exact known.message_ne.2 text
  | output error => exact fun line => ⟨nofun, nofun⟩

/-! ## Programs -/

namespace Machine.WellFormed

variable {machine : Machine} {program : List Stmt}

/-- Flushing changes nothing but the sink, and tells of nothing but the sink. -/
lemma flush (sound : machine.WellFormed) {fault : Option Fault} (known : ∀ given ∈ fault, given.Known) :
    (machine.flush fault).2.WellFormed ∧ ∀ given ∈ (machine.flush fault).1, given.Known := by
  obtain ⟨told, sink, flushed, cases_⟩ := Session.flush_cases fault machine
  rw [flushed]
  refine ⟨sound.of_eq rfl rfl, fun given mem => ?_⟩
  rcases cases_ with rfl | ⟨error, rfl⟩
  · exact known given mem
  · cases mem
    trivial

/-- **The run of a well-formed program keeps the functions well formed**, and no fault tells of an
unknown operator. -/
lemma interpret (sound : machine.WellFormed) (given : Stmt.WellFormedAll program) {allowance : Nat}
    {told : Option Fault × Machine} (ran : machine.interpret allowance program = some told) :
    told.2.WellFormed ∧ ∀ fault ∈ told.1, fault.Known := by
  have upheld := (Action.upholds allowance).executeAll program given machine sound
  rw [Machine.interpret] at ran
  cases found : Action.executeAll allowance program machine with
  | done completion after =>
      rw [found] at ran upheld
      cases ran
      exact upheld.1.flush (by simp)
  | failed fault after =>
      rw [found] at ran upheld
      cases ran
      exact upheld.1.flush (by simpa using upheld.2)
  | exhausted =>
      rw [found] at ran
      cases ran

end Machine.WellFormed

/-- The bound tree of a text is well formed, whether it is accepted or not. -/
lemma Program.wellFormed_bound (source : String) :
    Stmt.WellFormedAll (bound (read source).1) :=
  Stmt.wellFormedAll_bound [] (wellFormed_parse _)

/-- A program that runs is well formed. -/
lemma Compilation.wellFormed_of_runnable? {source : String} {program : List Stmt}
    (runnable : (ofSource source).runnable? = some program) : Stmt.WellFormedAll program := by
  obtain ⟨tree, read, -, rfl⟩ := exists_of_runnable? runnable
  have given := Program.wellFormed_bound source
  rwa [read] at given

/-- An expression that is evaluated is well formed. -/
lemma Program.wellFormed_readExpression {source : String} {value : Expr} {problems : List Diagnostic}
    (read : readExpression source = (some value, problems)) : value.WellFormed :=
  wellFormed_parseExpression (congrArg Prod.fst read)

namespace Session

/-- All functions are well formed, and nothing that waits tells of an unknown operator. -/
structure WellFormed (session : Session) : Prop where
  machine : session.machine.WellFormed
  pending : ∀ diagnostic ∈ session.log.pending, diagnostic.Known

variable {session after : Session} {allowance : Nat}

/-- What a step adds to the log is added to what waits. -/
lemma WellFormed.reports (sound : session.WellFormed) {machine : Machine}
    (given : machine.WellFormed) (told : List Diagnostic) (known : ∀ one ∈ told, one.Known) :
    WellFormed ⟨machine, session.log.reset.reportAll told⟩ := by
  rw [Log.reportAll_eq]
  exact ⟨given, List.forall_mem_append.mpr ⟨sound.pending, known⟩⟩

/-- A program that is refused leaves the machine alone. -/
lemma WellFormed.refusing (sound : session.WellFormed) {told : List Diagnostic}
    (early : ∀ one ∈ told, one.stage ≠ .execution) : (session.refusing told).WellFormed :=
  sound.reports sound.machine told fun one mem => .of_early (early one mem)

lemma WellFormed.run (sound : session.WellFormed) {source : String} {status : Status}
    (ran : session.run allowance source = some (status, after)) : after.WellFormed := by
  rw [run_stages] at ran
  dsimp only at ran
  split_ifs at ran
  · cases ran
    exact sound.refusing (Program.early_read source)
  · cases ran
    exact sound.refusing (Program.early_mistakes _)
  · have given := Program.wellFormed_bound source
    rcases found : session.machine.interpret allowance (Program.bound (Program.read source).1) with
      _ | ⟨_ | fault, machine⟩ <;> rw [found] at ran <;> cases ran
    · exact sound.reports (sound.machine.interpret given found).1 [] (by simp)
    · obtain ⟨kept, known⟩ := sound.machine.interpret given found
      exact sound.reports kept [fault.diagnostic] (by simpa using (known fault rfl).diagnostic)

lemma WellFormed.evaluate (sound : session.WellFormed) {source : String}
    {result : Except Status Value}
    (found : session.evaluate allowance source = some (result, after)) : after.WellFormed := by
  by_cases text : (Program.readExpression source).2 = []
  · obtain ⟨value, read⟩ := Program.exists_expression text
    have upheld := (Action.upholds allowance).evaluate value
      (Program.wellFormed_readExpression read) session.machine sound.machine
    rw [evaluate_accepted allowance session read] at found
    cases outcome : Action.evaluate allowance value session.machine <;>
      rw [outcome] at found upheld <;> cases found
    · exact sound.reports upheld.1 [] (by simp)
    · exact sound.reports upheld.1 [_] (by simpa using upheld.2.diagnostic)
  · rw [evaluate_refused allowance source session text] at found
    cases found
    exact sound.refusing (Program.early_readExpression source)

/-- **One step keeps everything well formed.** -/
lemma WellFormed.answer (sound : session.WellFormed) {request : Request}
    (answered : session.answer allowance request = some after) : after.WellFormed := by
  cases request with
  | run source =>
      obtain ⟨told, ran, rfl⟩ := Option.map_eq_some_iff.mp answered
      exact sound.run ran
  | evaluate source =>
      obtain ⟨told, found, rfl⟩ := Option.map_eq_some_iff.mp answered
      exact sound.evaluate found

/-- **So does a whole session.** -/
theorem Reaches.wellFormed {sink : Sink} {clock : Nat → Float} {requests : Nat → Request}
    {step : Nat} {origins : List Position}
    (reached : Reaches (.start sink clock) requests step origins session) : session.WellFormed := by
  induction reached with
  | start => exact ⟨.start sink clock, by simp [Log.empty]⟩
  | answer _ answered ih => exact ih.answer answered
  | takeOutput _ ih => exact ⟨ih.machine.of_eq rfl rfl, ih.pending⟩
  | takeDiagnostics _ ih => exact ⟨ih.machine, fun _ waits => absurd waits List.not_mem_nil⟩

/-- Why a request stops has nothing to do with unknown operators. -/
lemma WellFormed.fault? (sound : session.WellFormed) {request : Request} {fault : Fault}
    (stopped : session.fault? allowance request = some fault) : fault.Known := by
  cases request with
  | run source =>
      simp only [Session.fault?] at stopped
      split at stopped
      · cases stopped
      · next program runnable =>
          obtain ⟨told, ran, same⟩ := Option.bind_eq_some_iff.mp stopped
          have given := Compilation.wellFormed_of_runnable? runnable
          exact (sound.machine.interpret given ran).2 fault same
  | evaluate source =>
      simp only [Session.fault?] at stopped
      split at stopped
      · next value read =>
          have upheld := (Action.upholds allowance).evaluate value
            (Program.wellFormed_readExpression read) session.machine sound.machine
          split at stopped
          · next outcome =>
              rw [outcome] at upheld
              cases stopped
              exact upheld.2
          · cases stopped
      · cases stopped

/-- **No step fails for an unknown operator.**  Whatever tokens are read and whatever is wrong with
them, the trees are well formed, and the two unary and ten binary operators in them are those that the
evaluation knows.  So in every state that a session comes to, no request stops for an unknown operator,
and no diagnostic that was ever reported says so. -/
theorem operators_known {sink : Sink} {clock : Nat → Float} {requests : Nat → Request} {step : Nat}
    {origins : List Position} (reached : Reaches (.start sink clock) requests step origins session) :
    (∀ tokens, Stmt.WellFormedAll (Program.parse tokens).tree ∧
        ∀ value, (Program.parseExpression tokens).tree = some value → value.WellFormed) ∧
      (∀ operator operand, Value.prefixed operator operand = .error .unknownUnary ↔
        operator ∉ Kind.unaryOperators) ∧
      (∀ operator left right, Value.combined operator left right = .error .unknownBinary ↔
        operator ∉ Kind.binaryOperators) ∧
      (∀ allowance request error line,
        session.fault? allowance request = some (.runtime error line) →
          error ≠ .unknownUnary ∧ error ≠ .unknownBinary) ∧
      ∀ diagnostic ∈ session.log.pending, ∀ line,
        diagnostic ≠ .runtime line "Invalid unary operator." ∧
          diagnostic ≠ .runtime line "Invalid binary operator." := by
  have sound := reached.wellFormed
  refine ⟨fun tokens => ⟨Program.wellFormed_parse tokens,
      fun value found => Program.wellFormed_parseExpression found⟩,
    fun operator operand => Value.prefixed_eq_unknown_iff,
    fun operator left right => Value.combined_eq_unknown_iff, ?_, sound.pending⟩
  intro allowance request error line stopped
  have known := sound.fault? stopped
  constructor <;> rintro rfl <;> exact known

/-- A function with operators in it has been declared and called, and the next request stops with a
fault: for its operands and not for its operator. -/
theorem operators_known_call :
    let declared := "fun f() \x7b return !nil == true; \x7d f();"
    ∃ origins session, Reaches (.start (.direct .empty) fun _ => 0) (fun _ => .run declared) 1 origins
        session ∧
      (∃ fault, session.fault? 20 (.evaluate "f() - nil") = some fault) ∧
      ∀ allowance request error line,
        session.fault? allowance request = some (.runtime error line) →
          error ≠ .unknownUnary ∧ error ≠ .unknownBinary := by
  intro declared
  have stops : ((start (.direct .empty) fun _ => 0).run 20 declared).bind (fun told =>
      (told.2.fault? 20 (.evaluate "f() - nil")).map fun _ => true) = some true := by
    simp only [declared]
    decide +kernel
  clear_value declared
  obtain ⟨⟨status, session⟩, ran, rest⟩ := Option.bind_eq_some_iff.mp stops
  obtain ⟨fault, stopped, _⟩ := Option.map_eq_some_iff.mp rest
  have reached : Reaches (.start (.direct .empty) fun _ => 0) (fun _ => .run declared) 1 _ session :=
    .answer .start (by rw [answer, ← start, ran]; rfl)
  exact ⟨_, session, reached, ⟨fault, stopped⟩, (operators_known reached).2.2.2.1⟩

end Session

end LoxLang
