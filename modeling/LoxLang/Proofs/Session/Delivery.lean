import Mathlib
import LoxLang.Proofs.Evaluation.SideBySide
import LoxLang.Proofs.Session.Prints

/-!
# Output arrives before a run is over

A buffering sink passes nothing on before it is flushed.  A session flushes it behind every program that
it executes, however that ends, and at no other time: what evaluations print waits until the next
program is over.

* `Sink.Lags`, `Session.Lags` — what has arrived behind a buffering sink, with what still waits there,
  is what has arrived at a direct one, and all else is the same.
* `Session.Delivery` — what a request lets arrive.
* `Session.respond_lags`, `Session.respondAll_lags` — one request, and requests one after another.
* **`Session.run_delivers`** — when a run is over, all that the session has printed has arrived; other
  requests let nothing arrive.
-/

namespace LoxLang

/-- Nothing is added. -/
lemma Buffer.write_empty (buffer : Buffer) : buffer.write .empty = buffer := by
  rw [write, ByteArray.append_empty]

namespace Sink

/-- What has arrived and what still waits are all that has arrived at a direct sink. -/
inductive Lags : Sink → Sink → Prop where
  | intro (waiting arrived : Buffer) :
      Lags (.buffered waiting arrived) (.direct (arrived.write waiting.bytes))

lemma passes_buffered (waiting arrived : Buffer) (prints : List Print) :
    (buffered waiting arrived).passes prints =
      .ok (buffered (waiting.write (Print.joined prints)) arrived) :=
  passes_takes (fun taken => buffered ⟨taken⟩ arrived) (fun _ _ => rfl) waiting.bytes prints

lemma passes_direct (arrived : Buffer) (prints : List Print) :
    (direct arrived).passes prints = .ok (direct (arrived.write (Print.joined prints))) :=
  passes_takes (fun taken => direct ⟨taken⟩) (fun _ _ => rfl) arrived.bytes prints

/-- **Both sinks take all prints of a request.**  A program that was executed flushes what waits. -/
lemma Lags.settled {held direct : Sink} (lags : held.Lags direct) (request : Request)
    (prints : List Print) :
    ∃ heldLast heldEnd directEnd,
      held.passes prints = .ok heldLast ∧ request.settled heldLast = (none, heldEnd) ∧
      direct.passes prints = .ok directEnd ∧ request.settled directEnd = (none, directEnd) ∧
      heldEnd.Lags directEnd ∧
      heldEnd.arrived = if request.executes then directEnd.arrived else held.arrived := by
  obtain ⟨waiting, arrived⟩ := lags
  have all : (arrived.write waiting.bytes).write (Print.joined prints) =
      arrived.write (waiting.write (Print.joined prints)).bytes := by
    simp only [Buffer.write, ByteArray.append_assoc]
  have quiet : ∀ arrived, request.settled (.direct arrived) = (none, .direct arrived) := fun _ =>
    ite_self _
  cases executes : request.executes with
  | false =>
      refine ⟨_, _, _, passes_buffered waiting arrived prints, by rw [Request.settled, executes]; rfl,
        passes_direct _ prints, quiet _, ?_, rfl⟩
      rw [all]
      exact .intro _ _
  | true =>
      refine ⟨_, _, _, passes_buffered waiting arrived prints, by rw [Request.settled, executes]; rfl,
        passes_direct _ prints, quiet _, ?_, by rw [all]; rfl⟩
      rw [all]
      have last := Lags.intro .empty (arrived.write (waiting.write (Print.joined prints)).bytes)
      rwa [Buffer.empty, Buffer.write_empty] at last

end Sink

namespace Session

/-- The same session on a buffering and on a direct sink. -/
def Lags (held direct : Session) : Prop :=
  held.machine.sink.Lags direct.machine.sink ∧ direct = held.onto direct.machine.sink

/-- What a request lets arrive: all that was printed if it is a program that was executed, and nothing
if it was refused or is an expression.  All else that is seen of it is the same on both sinks. -/
structure Delivery (before : Session) (request : Request) (held direct : Answer × Session) : Prop where
  same : held.1 = direct.1.onto held.1.sink
  delivered : ∀ source, request = .run source → held.1.status ≠ .compileError →
    held.2.arrived = direct.2.arrived
  withheld : (held.1.status = .compileError ∨ ∃ source, request = .evaluate source) →
    held.2.arrived = before.arrived

variable {held direct session after : Session} {allowance : Nat} {request : Request} {answer : Answer}

/-- A program is executed exactly if it is not refused. -/
lemma executes_iff (asked : session.respond allowance request = some (answer, after)) :
    request.executes ↔ (∃ source, request = .run source) ∧ answer.status ≠ .compileError := by
  cases request with
  | evaluate source => simp [Request.executes]
  | run source =>
      obtain ⟨⟨status, next⟩, ran, same⟩ := Option.map_eq_some_iff.mp asked
      cases same
      cases runnable : (Compilation.ofSource source).runnable? with
      | none =>
          simp only [run, runOf, runnable] at ran
          cases ran
          simp [Request.executes, runnable]
      | some program =>
          rw [run_runnable runnable] at ran
          have started : status ≠ .compileError := by
            revert ran
            rcases session.machine.interpret allowance program with _ | ⟨_ | fault, machine⟩ <;>
              intro ran <;> cases ran <;> decide
          simp [Request.executes, runnable, started]

/-- **One request on both sinks.** -/
theorem respond_lags (lags : held.Lags direct) (allowance : Nat) (request : Request) :
    Option.Rel (fun first second => held.Delivery request first second ∧ first.2.Lags second.2)
      (held.respond allowance request) (direct.respond allowance request) := by
  obtain ⟨sinks, same⟩ := lags
  obtain ⟨told, answers⟩ := respond_settled allowance held request
  obtain ⟨heldLast, heldEnd, directEnd, taken, ends, taken', ends', last, arrived⟩ :=
    sinks.settled request (held.prints allowance request)
  have first := answers _ _ _ taken ends
  have second := answers _ _ _ taken' ends'
  rw [← same] at second
  rw [show held.onto held.machine.sink = held from rfl] at first
  cases told with
  | none =>
      rw [first, second]
      exact .none
  | some told =>
      have executed := executes_iff first
      rw [first, second]
      refine .some ⟨⟨rfl, fun source isRun started => ?_, fun kept => ?_⟩, last, rfl⟩
      · rw [if_pos (executed.mpr ⟨⟨source, isRun⟩, started⟩)] at arrived
        exact congrArg Buffer.bytes arrived
      · have unexecuted : ¬request.executes := by
          rw [executed]
          rintro ⟨⟨source, isRun⟩, started⟩
          rcases kept with refused | ⟨source', isValue⟩
          · exact started refused
          · cases isRun.symm.trans isValue
        rw [if_neg unexecuted] at arrived
        exact congrArg Buffer.bytes arrived

/-- **Requests one after another on both sinks.** -/
theorem respondAll_lags (lags : held.Lags direct) (requests : List (Nat × Request)) :
    Option.Rel (fun first second => first.2.Lags second.2)
      (held.respondAll requests) (direct.respondAll requests) := by
  induction requests generalizing held direct with
  | nil => exact .some lags
  | cons request others ih =>
      obtain ⟨allowance, request⟩ := request
      rw [respondAll, respondAll]
      refine rel_bind (respond_lags lags allowance request) fun first second both => ?_
      exact rel_map (ih both.2) fun _ _ last => last

/-- **Output arrives before a run is over.**  After any requests, a session on a buffering sink and the
same session on a direct one go on alike: the next request comes to an end on both or on none.  If it is
a program that was executed, then all that the session on the direct sink has printed so far has
arrived at the end, also if a fault stopped the program and also what evaluations had printed before;
and if it was refused or is an expression, then nothing has arrived that had not before. -/
theorem run_delivers {buffer : Buffer} {clock : Nat → Float} {requests : List (Nat × Request)}
    {answers : List Answer} {session : Session}
    (reached : (start (.buffered .empty buffer) clock).respondAll requests =
      some (answers, session)) :
    ∃ answers' direct, (start (.direct buffer) clock).respondAll requests =
        some (answers', direct) ∧
      ∀ allowance request, Option.Rel (session.Delivery request)
        (session.respond allowance request) (direct.respond allowance request) := by
  have lags : (start (.buffered .empty buffer) clock).Lags (start (.direct buffer) clock) := by
    have sinks := Sink.Lags.intro .empty buffer
    rw [Buffer.empty, Buffer.write_empty] at sinks
    exact ⟨sinks, rfl⟩
  have both := respondAll_lags lags requests
  rw [reached] at both
  obtain ⟨⟨answers', direct⟩, reached', lags⟩ := exists_of_rel both
  exact ⟨answers', direct, reached', fun allowance request =>
    rel_imp (respond_lags lags allowance request) fun _ _ both => both.1⟩

/-- A run declares a function, an evaluation calls it, and what that prints arrives with the next run,
which prints once more and then fails in a call. -/
theorem run_delivers_fault :
    let requests := [(20, Request.run "fun f() \x7b print nil; \x7d"), (20, .evaluate "f()")]
    let failing := Request.run "fun g() \x7b print true; missing; \x7d g();"
    ∃ answers session, (start (.buffered .empty .empty) fun _ => 0).respondAll requests =
        some (answers, session) ∧ session.arrived = .empty ∧
      ∃ answers' direct, (start (.direct .empty) fun _ => 0).respondAll requests =
          some (answers', direct) ∧
        ∃ first second, session.respond 20 failing = some first ∧
          direct.respond 20 failing = some second ∧ first.1.status = .runtimeError ∧
          first.2.arrived = second.2.arrived ∧ first.2.arrived = "nil\ntrue\n".toUTF8 := by
  intro requests failing
  have printed : ((start (.buffered .empty .empty) fun _ => 0).respondAll requests).bind (fun told =>
      (told.2.respond 20 failing).map fun next =>
        decide (told.2.arrived = .empty ∧ next.1.status = .runtimeError ∧
          next.2.arrived = "nil\ntrue\n".toUTF8)) = some true := by
    simp only [requests, failing]
    decide +kernel
  have isRun : ∃ source, failing = .run source := ⟨_, rfl⟩
  clear_value requests failing
  obtain ⟨source, isRun⟩ := isRun
  obtain ⟨⟨answers, session⟩, reached, next⟩ := Option.bind_eq_some_iff.mp printed
  obtain ⟨first, asked, seen⟩ := Option.map_eq_some_iff.mp next
  obtain ⟨waits, fails, arrives⟩ := of_decide_eq_true seen
  obtain ⟨answers', direct, reached', both⟩ := run_delivers reached
  have pair := both 20 failing
  rw [asked] at pair
  obtain ⟨second, answered, delivery⟩ := exists_of_rel pair
  have started : first.1.status ≠ .compileError := by
    rw [fails]
    decide
  exact ⟨answers, session, reached, waits, answers', direct, reached', first, second, asked, answered,
    fails, delivery.delivered source isRun started, arrives⟩

end Session

end LoxLang
