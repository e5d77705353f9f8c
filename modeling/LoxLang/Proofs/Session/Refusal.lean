import Mathlib
import LoxLang.Proofs.Session.Ledger

/-!
# A refused step is as if it had not been asked for

A step whose text is wrong is refused before anything is executed, but not before numbers were taken
from the counter and, if only the use of names is wrong, entries were made in the table of hops.  None
of that is ever seen.

* `Answer` — all that is seen of a step; `Session.respond`, `Session.respondAll` — the answers of a
  session to requests, with the diagnostics drained after each.
* `Ledger.Responds`, `Ledger.RespondsAll` — the answers of a session that keeps a ledger.
* `Ledger.respondsAll_plain`, `Ledger.exists_respondsAll` — they are the answers of a session without.
* **`Session.refused_unseen`** — a refused request changes no variable, prints nothing, and leaves every
  later answer as it would have been, also where its numbers and its entries stay in a ledger.
-/

namespace LoxLang

/-- All that is seen of a step. -/
structure Answer where
  status : Status
  /-- The value of an expression that could be evaluated. -/
  value : Option Value
  diagnostics : List Diagnostic
  /-- The sink with all that has been printed. -/
  sink : Sink

/-- What came of an evaluation, as a status and a value. -/
def Answer.ofResult : Except Status Value → Status × Option Value
  | .ok value => (.completed, some value)
  | .error status => (status, none)

/-! ## The answers of a session -/

namespace Session

/-- The answer of a step, and the session with its diagnostics drained. -/
def answered (result : Status × Option Value) (after : Session) : Answer × Session :=
  (⟨result.1, result.2, after.takeDiagnostics.1, after.machine.sink⟩, after.takeDiagnostics.2)

/-- The answer to a request; nothing if the allowance is used up. -/
def respond (allowance : Nat) (session : Session) : Request → Option (Answer × Session)
  | .run source => (session.run allowance source).map fun told => answered (told.1, none) told.2
  | .evaluate source =>
    (session.evaluate allowance source).map fun told => answered (Answer.ofResult told.1) told.2

/-- The answers to requests, each with an allowance of its own. -/
def respondAll (session : Session) : List (Nat × Request) → Option (List Answer × Session)
  | [] => some ([], session)
  | (allowance, request) :: others =>
    (session.respond allowance request).bind fun first =>
      (first.2.respondAll others).map fun rest => (first.1 :: rest.1, rest.2)

/-- The first request is answered, and then the others are. -/
lemma respondAll_cons {session last : Session} {allowance : Nat} {request : Request}
    {others : List (Nat × Request)} {answers : List Answer} :
    session.respondAll ((allowance, request) :: others) = some (answers, last) ↔
      ∃ answer after more, session.respond allowance request = some (answer, after) ∧
        after.respondAll others = some (more, last) ∧ answers = answer :: more := by
  constructor
  · intro asked
    obtain ⟨⟨answer, after⟩, responded, rest⟩ := Option.bind_eq_some_iff.mp asked
    obtain ⟨⟨more, last⟩, followed, ends⟩ := Option.map_eq_some_iff.mp rest
    cases ends
    exact ⟨answer, after, more, responded, followed, rfl⟩
  · rintro ⟨answer, after, more, responded, followed, rfl⟩
    simp only [respondAll, responded, Option.bind_some, followed, Option.map_some]

/-- No diagnostics wait. -/
def Drained (session : Session) : Prop := session.log.pending = []

/-- A step depends on the machine and on the diagnostics that wait, and on nothing else. -/
lemma respond_congr {session other : Session} (machine : session.machine = other.machine)
    (pending : session.log.pending = other.log.pending) (allowance : Nat) (request : Request) :
    session.respond allowance request = other.respond allowance request := by
  have log : session.log.reset = other.log.reset := by rw [Log.reset, Log.reset, pending]
  cases request with
  | run source =>
      rw [respond, respond, run, run, runOf, runOf, machine, log]
  | evaluate source =>
      rw [respond, respond, evaluate, evaluate, evaluateOf, evaluateOf, machine, log]

lemma respond_drained {session after : Session} {allowance : Nat} {request : Request}
    {answer : Answer} (asked : session.respond allowance request = some (answer, after)) :
    after.Drained := by
  cases request with
  | run source =>
      obtain ⟨told, _, same⟩ := Option.map_eq_some_iff.mp asked
      rw [← (Prod.mk.inj same).2]
      rfl
  | evaluate source =>
      obtain ⟨told, _, same⟩ := Option.map_eq_some_iff.mp asked
      rw [← (Prod.mk.inj same).2]
      rfl

lemma respondAll_drained : ∀ (requests : List (Nat × Request)) {session after : Session}
    {answers : List Answer}, session.Drained →
    session.respondAll requests = some (answers, after) → after.Drained
  | [], _, _, _, drained, asked => by cases asked; exact drained
  | (allowance, request) :: others, _, _, _, _, asked => by
      obtain ⟨first, next, more, responded, followed, -⟩ := respondAll_cons.mp asked
      exact respondAll_drained others (respond_drained responded) followed

/-- Drained sessions with the same machine answer alike. -/
lemma respondAll_congr {session other : Session} (machine : session.machine = other.machine)
    (drained : session.Drained) (drained' : other.Drained) (requests : List (Nat × Request)) :
    (session.respondAll requests).map Prod.fst = (other.respondAll requests).map Prod.fst := by
  cases requests with
  | nil => rfl
  | cons first others =>
      rw [respondAll, respondAll, respond_congr machine (drained.trans drained'.symm)]

/-- A request that is refused leaves the machine alone. -/
lemma respond_refused {session after : Session} {allowance : Nat} {request : Request}
    {answer : Answer} (asked : session.respond allowance request = some (answer, after))
    (refused : answer.status = .compileError) : after.machine = session.machine := by
  cases request with
  | run source =>
      obtain ⟨⟨status, next⟩, ran, same⟩ := Option.map_eq_some_iff.mp asked
      cases same
      obtain rfl : status = .compileError := refused
      simp only [run, runOf, behindRun] at ran
      split at ran
      · cases ran; rfl
      · split at ran <;> cases ran
  | evaluate source =>
      obtain ⟨⟨result, next⟩, ran, same⟩ := Option.map_eq_some_iff.mp asked
      cases same
      simp only [evaluate, evaluateOf, behindValue] at ran
      split at ran
      · split at ran <;> cases ran <;> cases refused
      · cases ran; rfl

end Session

/-! ## The answers of a session that keeps a ledger -/

namespace Ledger

/-- The answer of a step, and the ledger with its diagnostics drained. -/
def answered (result : Status × Option Value) (after : Ledger) : Answer × Ledger :=
  (⟨result.1, result.2.map after.plainValue, after.log.take.1, after.machine.sink⟩,
    { after with log := after.log.take.2 })

/-- **An answer to a request**, with any new numbers for the occurrences of its tree. -/
inductive Responds (allowance : Nat) (ledger : Ledger) : Request → Answer → Ledger → Prop where
  | run {source : String} {numbered : List Stmt} {next : Nat} {status : Status} {after : Ledger}
      (numbers : Numbers ledger.next next (Stmt.occurrencesAll numbered))
      (unnumbered : Stmt.revisedAll .unnumbered numbered = (Program.read source).1)
      (ran : ledger.run allowance source numbered next = some (status, after)) :
      Responds allowance ledger (.run source) (answered (status, none) after).1
        (answered (status, none) after).2
  | evaluate {source : String} {numbered : Option Expr} {next : Nat} {result : Except Status Value}
      {after : Ledger} (numbers : Numbers ledger.next next (Expr.occurrences? numbered))
      (unnumbered : numbered.map (Expr.revised .unnumbered) = (Program.readExpression source).1)
      (ran : ledger.evaluate allowance source numbered next = some (result, after)) :
      Responds allowance ledger (.evaluate source) (answered (Answer.ofResult result) after).1
        (answered (Answer.ofResult result) after).2

/-- Answers to requests, each with an allowance of its own. -/
inductive RespondsAll : Ledger → List (Nat × Request) → List Answer → Ledger → Prop where
  | none (ledger : Ledger) : RespondsAll ledger [] [] ledger
  | next {ledger after last : Ledger} {allowance : Nat} {request : Request} {answer : Answer}
      {others : List (Nat × Request)} {answers : List Answer}
      (first : ledger.Responds allowance request answer after)
      (rest : RespondsAll after others answers last) :
      RespondsAll ledger ((allowance, request) :: others) (answer :: answers) last

variable {ledger after last : Ledger} {allowance : Nat} {request : Request} {answer : Answer}
  {requests : List (Nat × Request)} {answers : List Answer}

/-- An answer with the ledger is the answer without it. -/
lemma responds_plain (sound : ledger.Sound) (first : ledger.Responds allowance request answer after) :
    ledger.plain.respond allowance request = some (answer, after.plain) ∧ after.Sound := by
  cases first with
  | run numbers unnumbered ran =>
      obtain ⟨same, settled⟩ := run_plain sound numbers unnumbered allowance
      have sound := settled _ _ ran
      rw [Session.respond, same, ran]
      exact ⟨rfl, sound.unhosted, sound.kept, sound.free⟩
  | @evaluate source numbered next result after numbers unnumbered ran =>
      obtain ⟨same, settled⟩ := evaluate_plain sound numbers unnumbered allowance
      have sound := settled _ _ ran
      rw [Session.respond, same, ran]
      exact ⟨by cases result <;> rfl, sound.unhosted, sound.kept, sound.free⟩

/-- Removing numbers from a tree without any changes nothing. -/
lemma unnumbered_read (source : String) :
    Stmt.revisedAll .unnumbered (Program.read source).1 = (Program.read source).1 :=
  Stmt.revisedAll_eq_self rfl _ fun occurrence mem =>
    ((Program.read_fresh source).2 occurrence mem).symm

lemma unnumbered_readExpression (source : String) :
    (Program.readExpression source).1.map (Expr.revised .unnumbered) =
      (Program.readExpression source).1 := by
  cases read : (Program.readExpression source).1 with
  | none => rfl
  | some expression =>
      exact congrArg some (expression.revised_eq_self rfl fun occurrence mem =>
        (Program.readExpression_fresh read occurrence mem).symm)

/-- Where there is an answer without the ledger, there is one with it. -/
lemma exists_responds (sound : ledger.Sound) {session : Session}
    (asked : ledger.plain.respond allowance request = some (answer, session)) :
    ∃ after, ledger.Responds allowance request answer after ∧ after.plain = session := by
  have some_ : ∃ answer after, ledger.Responds allowance request answer after := by
    cases request with
    | run source =>
        obtain ⟨numbered, next, unnumbered, numbers⟩ :=
          Stmt.exists_numbersAll (Program.read source).1 ledger.next
        rw [unnumbered_read] at unnumbered
        obtain ⟨told, ran, _⟩ := Option.map_eq_some_iff.mp asked
        rw [(run_plain sound numbers unnumbered allowance).1] at ran
        obtain ⟨⟨status, after⟩, ran, _⟩ := Option.map_eq_some_iff.mp ran
        exact ⟨_, _, .run numbers unnumbered ran⟩
    | evaluate source =>
        obtain ⟨numbered, next, unnumbered, numbers⟩ :=
          Expr.exists_numbers? (Program.readExpression source).1 ledger.next
        rw [unnumbered_readExpression] at unnumbered
        obtain ⟨told, ran, _⟩ := Option.map_eq_some_iff.mp asked
        rw [(evaluate_plain sound numbers unnumbered allowance).1] at ran
        obtain ⟨⟨result, after⟩, ran, _⟩ := Option.map_eq_some_iff.mp ran
        exact ⟨_, _, .evaluate numbers unnumbered ran⟩
  obtain ⟨other, after, responds⟩ := some_
  have told := (responds_plain sound responds).1
  rw [asked] at told
  cases told
  exact ⟨after, responds, rfl⟩

/-- **The answers with the ledger are the answers without it.** -/
theorem respondsAll_plain (sound : ledger.Sound) (told : ledger.RespondsAll requests answers last) :
    ledger.plain.respondAll requests = some (answers, last.plain) ∧ last.Sound := by
  induction told with
  | none ledger => exact ⟨rfl, sound⟩
  | next first _ ih =>
      obtain ⟨here, settled⟩ := responds_plain sound first
      obtain ⟨there, settled⟩ := ih settled
      refine ⟨?_, settled⟩
      rw [Session.respondAll, here, Option.bind_some, there]
      rfl

/-- **Where there are answers without the ledger, there are some with it.** -/
theorem exists_respondsAll : ∀ (requests : List (Nat × Request)) {ledger : Ledger}
    {answers : List Answer} {session : Session}, ledger.Sound →
    ledger.plain.respondAll requests = some (answers, session) →
    ∃ last, ledger.RespondsAll requests answers last
  | [], ledger, _, _, _, asked => by cases asked; exact ⟨ledger, .none ledger⟩
  | (allowance, request) :: others, ledger, _, _, sound, asked => by
      obtain ⟨⟨answer, after⟩, responded, rest⟩ := Option.bind_eq_some_iff.mp asked
      obtain ⟨⟨more, last⟩, followed, same⟩ := Option.map_eq_some_iff.mp rest
      cases same
      obtain ⟨next, first, rfl⟩ := exists_responds sound responded
      obtain ⟨last, told⟩ := exists_respondsAll others (responds_plain sound first).2 followed
      exact ⟨last, .next first told⟩

/-! ## The start -/

lemma sound_start (sink : Sink) (clock : Nat → Float) : (start sink clock).Sound :=
  ⟨Machine.unhosted_start sink clock, Machine.revised_start _ sink clock, fun _ _ => rfl⟩

lemma plain_start (sink : Sink) (clock : Nat → Float) :
    (start sink clock).plain = .start sink clock :=
  congrArg (Session.mk · .empty) (Machine.revised_start _ sink clock)

/-- A request that is refused leaves the machine alone, though not the ledger. -/
lemma responds_refused (first : ledger.Responds allowance request answer after)
    (refused : answer.status = .compileError) : after.machine = ledger.machine := by
  cases first with
  | @run source numbered next status after numbers unnumbered ran =>
      obtain rfl : status = .compileError := refused
      simp only [run] at ran
      split_ifs at ran
      · cases ran; rfl
      · cases ran; rfl
      · exact absurd rfl (of_behindRun ran).1
  | @evaluate source numbered next result after numbers unnumbered ran =>
      simp only [evaluate] at ran
      split at ran
      · obtain ⟨executed, -⟩ := of_behindValue ran
        cases result with
        | ok value => cases refused
        | error status => exact absurd (congrArg Except.error refused) executed
      · cases ran; rfl

end Ledger

/-! ## Refused requests -/

namespace Session

/-- **A refused request is as if it had not been made.**  At any place of a session, a request that
ends with a compile error leaves the machine as it is, so that nothing is printed and no variable
changes, and all later answers are the same with it and without it.  That is also so where occurrences
take their numbers from a counter and hops are kept in one table, and numbers and entries of the refused
request stay there for good. -/
theorem refused_unseen (sink : Sink) (clock : Nat → Float) {before : List (Nat × Request)}
    {told : List Answer} {here : Session}
    (reached : (start sink clock).respondAll before = some (told, here)) {allowance : Nat}
    {request : Request} {answer : Answer} {after : Session}
    (asked : here.respond allowance request = some (answer, after))
    (refused : answer.status = .compileError) :
    after.machine = here.machine ∧
      (∀ later, (after.respondAll later).map Prod.fst = (here.respondAll later).map Prod.fst) ∧
      (∃ kept kept', (Ledger.start sink clock).RespondsAll before told kept ∧
        kept.Responds allowance request answer kept') ∧
      ∀ kept kept', (Ledger.start sink clock).RespondsAll before told kept →
        kept.Responds allowance request answer kept' →
        kept'.machine = kept.machine ∧ ∀ later answers,
          (∃ last, kept'.RespondsAll later answers last) ↔
            (here.respondAll later).map Prod.fst = some answers := by
  have machine := respond_refused asked refused
  have drained := respond_drained asked
  have started : (start sink clock).Drained := rfl
  have alike := respondAll_congr machine drained (respondAll_drained before started reached)
  have sound := Ledger.sound_start sink clock
  -- with a ledger the session comes to the same places
  have places : ∀ {kept}, (Ledger.start sink clock).RespondsAll before told kept →
      kept.plain = here ∧ kept.Sound := fun kept => by
    obtain ⟨same, settled⟩ := Ledger.respondsAll_plain sound kept
    rw [Ledger.plain_start, reached] at same
    exact ⟨(Prod.mk.inj (Option.some.inj same)).2.symm, settled⟩
  refine ⟨machine, alike, ?_, fun kept kept' first second => ?_⟩
  · rw [← Ledger.plain_start] at reached
    obtain ⟨kept, first⟩ := Ledger.exists_respondsAll before sound reached
    obtain ⟨rfl, settled⟩ := places first
    obtain ⟨kept', second, _⟩ := Ledger.exists_responds settled asked
    exact ⟨kept, kept', first, second⟩
  · obtain ⟨rfl, settled⟩ := places first
    obtain ⟨same, settled'⟩ := Ledger.responds_plain settled second
    obtain rfl : after = kept'.plain := by
      rw [asked] at same
      exact (Prod.mk.inj (Option.some.inj same)).2
    refine ⟨Ledger.responds_refused second refused, fun later answers => ⟨?_, fun found => ?_⟩⟩
    · rintro ⟨last, told⟩
      rw [← alike, (Ledger.respondsAll_plain settled' told).1]
      rfl
    · rw [← alike] at found
      obtain ⟨⟨_, session⟩, responded, rfl⟩ := Option.map_eq_some_iff.mp found
      exact Ledger.exists_respondsAll later settled' responded

/-- A variable that is read in its own initializer: a mistake, and hops are entered for it. -/
theorem refused_unseen_initializer :
    let here := start (.direct .empty) fun _ => 0
    let request := Request.run "\x7b var a = a; \x7d"
    ∃ answer after, here.respondAll [] = some ([], here) ∧
      here.respond 0 request = some (answer, after) ∧ answer.status = .compileError ∧
      after.machine = here.machine ∧
      ∀ later, (after.respondAll later).map Prod.fst = (here.respondAll later).map Prod.fst := by
  intro here request
  have refused : (Compilation.ofSource "\x7b var a = a; \x7d").runnable? = none := by
    rw [← Option.isNone_iff_eq_none]
    cbv
  have asked : ∃ answer after, here.respond 0 request = some (answer, after) ∧
      answer.status = .compileError := by
    simp only [request, respond, run, runOf, refused, Option.map_some]
    exact ⟨_, _, rfl, rfl⟩
  obtain ⟨answer, after, asked, status⟩ := asked
  have reached : here.respondAll [] = some ([], here) := rfl
  have unseen := refused_unseen (.direct .empty) (fun _ => 0) reached asked status
  exact ⟨answer, after, reached, asked, status, unseen.1, unseen.2.1⟩

end Session

end LoxLang
