import Mathlib
import LoxLang.Proofs.Evaluation.Joined
import LoxLang.Proofs.Session.Lines

/-!
# One step instead of two

A session keeps everything between two steps that the statements of one program keep between each
other.  So two programs do as one step what they do as two, except that the second one then stands
further down.

* `Session.Reaches.sameHost` — what every state of a session has in common with the start.
* `Session.run_of_accepts` — a step whose source nothing is wrong with.
* `Session.run_joined_iff` — the joint step is the second step with the source where it stands then.
* `Session.marked_below` — the second step with its source further down differs in lines only.
* **`Session.run_joined`** — splitting a program over two steps changes nothing.
-/

namespace LoxLang

/-! ## What a session keeps of its host -/

lemma Machine.SameHost.trans {first second third : Machine} (one : first.SameHost second)
    (two : second.SameHost third) : first.SameHost third :=
  ⟨two.natives.trans one.natives, fun direct => two.direct (one.direct direct)⟩

lemma Action.executeAll_sameHost {machine : Machine} (unhosted : machine.Unhosted) (n : Nat)
    (stmts : List Stmt) : (Action.executeAll n stmts machine).SameHost machine := by
  have host := ((Tabled.revised id .same n).executeAll stmts machine unhosted).2
  rwa [show Revision.same.hops = id from rfl, Function.comp_id,
    Tabled.executeAll_untabled] at host

/-- With a direct sink there is nothing to flush. -/
lemma Machine.flush_direct {machine : Machine} (direct : machine.sink.IsDirect)
    (fault : Option Fault) : machine.flush fault = (fault, machine) := by
  obtain ⟨arrived, same⟩ := direct
  simp only [Machine.flush, same, Sink.flush]
  rw [← same]

namespace Session

/-- **The host is the same in every state of a session**, and so is the kind of the sink. -/
theorem Reaches.sameHost {start : Machine} {requests : Nat → Request} {step : Nat}
    {origins : List Position} {session : Session}
    (reached : Reaches start requests step origins session) (unhosted : start.Unhosted) :
    start.SameHost session.machine := by
  induction reached with
  | start => exact .refl start
  | @answer step allowance origins session after _ answered ih =>
      refine ih.trans ?_
      have here := ih.unhosted unhosted
      cases request : requests step with
      | run source =>
          rw [request] at answered
          obtain ⟨told, ran, rfl⟩ := Option.map_eq_some_iff.mp answered
          rw [run] at ran
          exact (runOf_revised (r := .same) rfl here allowance _).2 told ran
      | evaluate source =>
          rw [request] at answered
          obtain ⟨told, ran, rfl⟩ := Option.map_eq_some_iff.mp answered
          rw [evaluate] at ran
          exact (evaluateOf_revised (r := .same) rfl here allowance _).2 told ran
  | takeOutput _ ih =>
      refine ih.trans ⟨rfl, ?_⟩
      rintro ⟨arrived, same⟩
      exact ⟨.empty, by rw [Session.takeOutput, same]; rfl⟩
  | takeDiagnostics _ ih => exact ih

/-! ## A step whose source is accepted -/

/-- How a step ends, from the outcome of its statements. -/
def concluded (log : Log) (outcome : Outcome Completion) : Option (Status × Session) :=
  behindRun log outcome.flushed

lemma runOf_bound (tree program : List Stmt) (n : Nat) (session : Session) :
    session.runOf n ⟨tree, some program, []⟩ =
      concluded session.log.reset (Action.executeAll n program session.machine) := by
  rw [runOf, Compilation.runnable?]
  rfl

lemma run_of_accepts {source : String} {tree : List Stmt} (accepts : Program.Accepts source tree)
    (n : Nat) (session : Session) : session.run n source =
      concluded session.log.reset (Action.executeAll n (Program.bound tree) session.machine) := by
  rw [run, accepts.ofSource, runOf_bound]

/-- What a completed step says of the run of its statements. -/
lemma executeAll_of_completed {source : String} {tree : List Stmt}
    (accepts : Program.Accepts source tree) {n : Nat} {session mid : Session}
    (unhosted : session.machine.Unhosted) (direct : session.machine.sink.IsDirect)
    (completed : session.run n source = some (.completed, mid)) :
    Action.executeAll n (Program.bound tree) session.machine = .done .normal mid.machine ∧
      mid.log = session.log.reset := by
  rw [run_of_accepts accepts] at completed
  have host := Action.executeAll_sameHost unhosted n (Program.bound tree)
  have returnless : Stmt.ReturnlessAll (Program.bound tree) :=
    Stmt.returnlessAll_of_mistakes [] tree [] accepts.mistakes
  have normal := (Action.normal n).2 _ returnless session.machine
  cases found : Action.executeAll n (Program.bound tree) session.machine with
  | done completion machine =>
      rw [found] at completed host
      rw [concluded, Outcome.flushed, Machine.flush_direct (host.direct direct)] at completed
      cases completed
      cases completion with
      | normal => exact ⟨rfl, rfl⟩
      | returned value => exact absurd found (normal value machine)
  | failed fault machine =>
      rw [found] at completed host
      rw [concluded, Outcome.flushed, Machine.flush_direct (host.direct direct)] at completed
      cases completed
  | exhausted => rw [found] at completed; cases completed

/-- The outcomes of statements settle the ends of steps. -/
lemma exists_concluded {run run' : Nat → Outcome Completion} {log : Log}
    (same : ∀ outcome, outcome ≠ .exhausted → ((∃ n, run n = outcome) ↔ ∃ n, run' n = outcome))
    (told : Status × Session) : (∃ n, concluded log (run n) = some told) ↔
      ∃ n, concluded log (run' n) = some told := by
  have given : ∀ {outcome}, concluded log outcome = some told → outcome ≠ .exhausted := by
    rintro outcome ends rfl
    cases ends
  constructor
  · rintro ⟨n, ends⟩
    obtain ⟨m, found⟩ := (same _ (given ends)).mp ⟨n, rfl⟩
    exact ⟨m, found ▸ ends⟩
  · rintro ⟨n, ends⟩
    obtain ⟨m, found⟩ := (same _ (given ends)).mpr ⟨n, rfl⟩
    exact ⟨m, found ▸ ends⟩

/-! ## Two steps and one -/

/-- A source below the lines of another one. -/
def below (first second : String) : String :=
  String.ofList (List.replicate (Scan.lines first) '\n') ++ second

variable {first second : String} {stmts others : List Stmt} {session mid : Session} {n : Nat}

/-- **The joint step is the second one with the source where it stands then.** -/
theorem run_joined_iff (front : Program.Accepts first stmts)
    (behind : Program.Accepts second others) (unhosted : session.machine.Unhosted)
    (direct : session.machine.sink.IsDirect)
    (completed : session.run n first = some (.completed, mid)) (told : Status × Session) :
    (∃ n, session.run n (first ++ "\n" ++ second) = some told) ↔
      ∃ n, mid.run n (below first second) = some told := by
  obtain ⟨ended, log⟩ := executeAll_of_completed front unhosted direct completed
  have joint := front.joined behind
  have lower := behind.below (Scan.lines first)
  have resets : session.log.reset.reset = session.log.reset := rfl
  simp only [below, run_of_accepts joint, run_of_accepts lower, log, resets, Program.bound_joined]
  exact exists_concluded (fun _ => Action.executeAll_append ended _) told

/-- **A step with its source further down differs in lines only.** -/
theorem marked_below (first : String) (behind : Program.Accepts second others)
    (unhosted : mid.machine.Unhosted) (n : Nat) : Option.Rel
      (fun upper lower => lower.1 = upper.1 ∧ Marked (Scan.lines first) upper.2 lower.2)
      (mid.run n second) (mid.run n (below first second)) := by
  have hops : Revision.even.hops = id := rfl
  -- the tokens of the session are marked even, those of the source odd
  have marked : (mid.revised .even).machine.Unhosted := unhosted
  have sources : Compilation.ofSource (below first second) =
      (Compilation.ofSource second).revised (.down (Scan.lines first)) := by
    have lower := (behind.below (Scan.lines first)).ofSource
    rw [behind.ofSource, Compilation.revised, below, lower,
      Program.bound_revised rfl]
    rfl
  have above := (runOf_revised (r := .unmark) rfl marked n
    ((Compilation.ofSource second).revised .odd)).1
  obtain ⟨lower, host⟩ := runOf_revised (r := .lower (Scan.lines first)) rfl marked n
    ((Compilation.ofSource second).revised .odd)
  rw [← revised_comp, ← Compilation.revised_comp, Revision.unmark_even, Revision.unmark_odd,
    revised_same, Compilation.revised_same] at above
  rw [← revised_comp, ← Compilation.revised_comp, Revision.lower_even, Revision.lower_odd,
    revised_same, ← sources] at lower
  rw [run, run, above, lower]
  cases given : (mid.revised .even).runOf n ((Compilation.ofSource second).revised .odd) with
  | none => exact .none
  | some told =>
      refine .some ⟨?_, told.2, (host told given).unhosted marked, rfl, rfl⟩
      rw [Prod.map_fst, Prod.map_fst]

/-- **Splitting a program over two steps changes nothing.**  In any state of a session with a sink in
memory, two sources that nothing is wrong with, the first of which completes, are accepted as one with a
line end in between.  The joint step ends as the second one does with its source below the lines of the
first.  So it ends exactly if the second one does, with the same status, the same output and the same
globals, and with the same problems, whose lines are those of the second step or as many lines lower as
the first source takes up. -/
theorem run_joined {buffer : Buffer} {clock : Nat → Float} {requests : Nat → Request} {step : Nat}
    {origins : List Position}
    (reached : Reaches (.start (.direct buffer) clock) requests step origins session)
    (sound : (Compilation.ofSource first).problems = [])
    (sound' : (Compilation.ofSource second).problems = [])
    (completed : session.run n first = some (.completed, mid)) :
    (Compilation.ofSource (first ++ "\n" ++ second)).problems = [] ∧
      (∀ told, (∃ n, session.run n (first ++ "\n" ++ second) = some told) ↔
        ∃ n, mid.run n (below first second) = some told) ∧
      (∀ n status last, mid.run n second = some (status, last) →
        ∃ n joint, session.run n (first ++ "\n" ++ second) = some (status, joint) ∧
          last.Lowered (Scan.lines first) joint) ∧
      ∀ n status joint, session.run n (first ++ "\n" ++ second) = some (status, joint) →
        ∃ n last, mid.run n second = some (status, last) ∧
          last.Lowered (Scan.lines first) joint := by
  obtain ⟨stmts, front⟩ := Program.exists_accepts sound
  obtain ⟨others, behind⟩ := Program.exists_accepts sound'
  have host := reached.sameHost (Machine.unhosted_start _ clock)
  have unhosted := host.unhosted (Machine.unhosted_start _ clock)
  have direct := host.direct ⟨buffer, rfl⟩
  have later : mid.machine.Unhosted := by
    have ran := completed
    rw [run] at ran
    exact ((runOf_revised (r := .same) rfl unhosted n _).2 _ ran).unhosted unhosted
  have exact_ := run_joined_iff front behind unhosted direct completed
  have moved := fun n => marked_below first behind later n
  refine ⟨by rw [(front.joined behind).ofSource], exact_, fun n status last ran => ?_,
    fun n status joint ran => ?_⟩
  · have both := moved n
    rw [ran] at both
    cases lower : mid.run n (below first second) with
    | none => rw [lower] at both; cases both
    | some told =>
        rw [lower] at both
        obtain ⟨status', joint⟩ := told
        cases both with
        | some both =>
            obtain ⟨rfl, marked⟩ := both
            obtain ⟨m, joined⟩ := (exact_ _).mpr ⟨n, lower⟩
            exact ⟨m, joint, joined, marked.lowered⟩
  · obtain ⟨m, lower⟩ := (exact_ _).mp ⟨n, ran⟩
    have both := moved m
    rw [lower] at both
    cases upper : mid.run m second with
    | none => rw [upper] at both; cases both
    | some told =>
        rw [upper] at both
        obtain ⟨status', last⟩ := told
        cases both with
        | some both =>
            obtain ⟨rfl, marked⟩ := both
            exact ⟨m, last, upper, marked.lowered⟩

/-- A function of the first program is called by the second one. -/
theorem run_joined_call :
    let session := start (.direct .empty) fun _ => 0
    let first := "var a;\nfun f() \x7b return a; \x7d"
    let second := "var b = f();"
    ∃ mid last joint,
      Reaches (.start (.direct .empty) fun _ => 0) (fun _ => .run first) 0 [] session ∧
      (Compilation.ofSource first).problems = [] ∧ (Compilation.ofSource second).problems = [] ∧
      session.run 20 first = some (.completed, mid) ∧
      mid.run 20 second = some (.completed, last) ∧
      (∃ n, session.run n (first ++ "\n" ++ second) = some (.completed, joint)) ∧
      last.Lowered 2 joint := by
  intro session first second
  have reached : Reaches (.start (.direct .empty) fun _ => 0) (fun _ => .run first) 0 [] session :=
    .start
  have sound : (Compilation.ofSource first).problems = [] := by
    rw [← List.isEmpty_iff]
    cbv
  have sound' : (Compilation.ofSource second).problems = [] := by
    rw [← List.isEmpty_iff]
    cbv
  have statuses : (session.run 20 first).bind (fun told =>
      (told.2.run 20 second).map fun next => (told.1, next.1)) = some (.completed, .completed) := by
    cbv
  have lines : Scan.lines first = 2 := by decide
  clear_value session first second
  obtain ⟨⟨status, mid⟩, completed, rest⟩ := Option.bind_eq_some_iff.mp statuses
  obtain ⟨⟨status', last⟩, ran, same⟩ := Option.map_eq_some_iff.mp rest
  cases same
  obtain ⟨-, -, forth, -⟩ := run_joined reached sound sound' completed
  obtain ⟨n, joint, joined, lowered⟩ := forth 20 _ _ ran
  exact ⟨mid, last, joint, reached, sound, sound', completed, ran, ⟨n, joined⟩, lines ▸ lowered⟩

end Session

end LoxLang
