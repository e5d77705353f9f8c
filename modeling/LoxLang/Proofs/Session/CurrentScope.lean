import Mathlib
import LoxLang.Proofs.Evaluation.CurrentScope
import LoxLang.Proofs.Session.Visits

/-!
# Every step of a session begins among the globals

A step that is aborted inside blocks and calls leaves scopes behind, but none of them stays current: the
next step begins in the scope of the globals, and so does each of its statements.  What it declares at
the top is therefore global, and no scope that was left behind hides a global name.

* `Session.answer_restored` — an answer restores the current scope, whatever comes of it.
* `Session.Reaches.amongGlobals` — between two requests the globals are current.
* `Machine.DeclaresGlobals` — what is declared here becomes a global name.
* **`Session.scopes_restored`** — all of it, for every state that a session comes to.
-/

namespace LoxLang

namespace Machine

/-- The globals exist and are current. -/
structure AmongGlobals (machine : Machine) : Prop where
  current : machine.current = globals
  inside : globals < machine.store.scopes.size

/-- A variable and a function that are declared now are bound among the globals, to what the
initializer yields and to a function that keeps the globals as its scope. -/
structure DeclaresGlobals (machine : Machine) : Prop where
  variable_ : ∀ {n : Nat} {name : Token} {initializer : Option Expr} {completion : Completion}
    {after : Machine}, Action.execute (n + 1) (.variable name initializer) machine =
      .done completion after → ∃ value evaluated,
        Action.evaluateOr n initializer machine = .done value evaluated ∧
        after.store = evaluated.store.define globals name.lexeme value ∧
        after.store.get? globals name.lexeme = some value
  function : ∀ (n : Nat) (name : Token) (parameters : List Token) (body : List Stmt),
    ∃ after, Action.execute (n + 1) (.function name parameters body) machine =
        .done .normal after ∧
      after.store.get? globals name.lexeme =
        some (.function machine.events ⟨name, parameters, body, globals⟩)

namespace AmongGlobals

variable {machine after : Machine}

lemma restored (among : machine.AmongGlobals) (restored : machine.Restored after) :
    after.AmongGlobals :=
  ⟨restored.current.trans among.current, among.inside.trans_le restored.scopes.size⟩

/-- From the globals only the globals are seen. -/
lemma get?_current (among : machine.AmongGlobals) (name : String) :
    machine.store.get? machine.current name = machine.store.local? globals name := by
  rw [among.current, Store.get?_globals]

/-- A name that is bound among the globals is found there. -/
lemma get?_define {store : Store Value} (inside : globals < store.scopes.size) (name : String)
    (value : Value) : (store.define globals name value).get? globals name = some value := by
  rw [Store.get?_globals, Store.local?_define_self inside]

lemma declaresGlobals (among : machine.AmongGlobals) : machine.DeclaresGlobals where
  variable_ := by
    intro n name initializer completion after executed
    have later := (Action.restores n).evaluateOr initializer machine
    have unfolded : Action.execute (n + 1) (.variable name initializer) machine =
        Action.bind (Action.evaluateOr n initializer)
          (fun value => Action.define name value >>= fun _ => Pure.pure .normal) machine := rfl
    rw [unfolded, Action.bind] at executed
    cases found : Action.evaluateOr n initializer machine with
    | done value evaluated =>
        rw [found] at executed later
        have here := among.restored later
        cases executed
        refine ⟨value, evaluated, rfl, by rw [here.current], ?_⟩
        show (evaluated.store.define evaluated.current name.lexeme value).get? _ _ = _
        rw [here.current]
        exact get?_define here.inside name.lexeme value
    | failed fault evaluated => rw [found] at executed; cases executed
    | exhausted => rw [found] at executed; cases executed
  function := by
    intro n name parameters body
    refine ⟨_, rfl, ?_⟩
    show (machine.store.define machine.current name.lexeme
      (.function machine.events ⟨name, parameters, body, machine.current⟩)).get? _ _ = _
    rw [among.current]
    exact get?_define among.inside _ _

end AmongGlobals

/-- A session begins among the globals, whatever functions the host makes known. -/
lemma amongGlobals_hosted (sink : Sink) (clock : Nat → Float) (hosts : List (String × Native)) :
    (hosted sink clock hosts).AmongGlobals := by
  induction hosts using List.reverseRecOn with
  | nil => exact ⟨rfl, by simp [hosted, start, register, Store.root, Store.empty, globals]⟩
  | append_singleton hosts host ih =>
      rw [hosted, List.foldl_append]
      exact ⟨ih.current, ih.inside.trans_le (Store.Grows.define ..).size⟩

/-- Flushing leaves the scopes alone. -/
lemma restored_flush (fault : Option Fault) (machine : Machine) :
    machine.Restored (machine.flush fault).2 := by
  simp only [flush]
  split
  · exact ⟨rfl, .refl _⟩
  · exact ⟨rfl, .refl _⟩

lemma restored_interpret {allowance : Nat} {program : List Stmt} {machine : Machine}
    {told : Option Fault × Machine} (ran : machine.interpret allowance program = some told) :
    machine.Restored told.2 := by
  have restored := (Action.restores allowance).executeAll program machine
  rw [interpret] at ran
  cases found : Action.executeAll allowance program machine with
  | done completion after =>
      rw [found] at ran restored
      cases ran
      exact restored.trans (restored_flush _ _)
  | failed fault after =>
      rw [found] at ran restored
      cases ran
      exact restored.trans (restored_flush _ _)
  | exhausted =>
      rw [found] at ran
      cases ran

end Machine

namespace Session

variable {session after : Session}

/-- **A step of a session restores the current scope**: a step that completes, one that is refused, and
one that is aborted, wherever it stood. -/
lemma answer_restored {allowance : Nat} {request : Request}
    (answered : session.answer allowance request = some after) :
    session.machine.Restored after.machine := by
  cases request with
  | run source =>
      obtain ⟨told, ran, rfl⟩ := Option.map_eq_some_iff.mp answered
      simp only [run, runOf, behindRun] at ran
      split at ran
      · cases ran
        exact .refl _
      · split at ran
        · cases ran
        · next found => cases ran; exact Machine.restored_interpret found
        · next found => cases ran; exact Machine.restored_interpret found
  | evaluate source =>
      obtain ⟨told, ran, rfl⟩ := Option.map_eq_some_iff.mp answered
      simp only [evaluate, evaluateOf, behindValue] at ran
      split at ran
      · next expression _ _ =>
        have restored := (Action.restores allowance).evaluate expression session.machine
        split at ran
        · next found => rw [found] at restored; cases ran; exact restored
        · next found => rw [found] at restored; cases ran; exact restored
        · cases ran
      · cases ran
        exact .refl _

variable {requests : Nat → Request} {step : Nat} {origins : List Position} {start : Machine}

/-- Between two requests the globals are current. -/
lemma Reaches.amongGlobals (begins : start.AmongGlobals)
    (reached : Reaches start requests step origins session) : session.machine.AmongGlobals := by
  induction reached with
  | start => exact begins
  | answer _ answered ih => exact ih.restored (answer_restored answered)
  | takeOutput _ ih => exact ⟨ih.current, ih.inside⟩
  | takeDiagnostics _ ih => exact ih

/-- **Scopes are restored on every exit.**  Everything that can be run restores the current scope,
however it ends, and so do statements that are run in any other scope.  Hence in every state that a
session comes to, the globals are current, and from them no other scope is seen; the next step is among
the globals in front of each statement at its top, so what it declares there is global. -/
theorem scopes_restored (sink : Sink) (clock : Nat → Float) (hosts : List (String × Native))
    (reached : Reaches (.hosted sink clock hosts) requests step origins session) :
    (∀ n, Action.RestoredRun n) ∧
      (∀ n scope stmts, Action.Restores (Action.within scope (Action.executeAll n stmts))) ∧
      session.machine.current = Machine.globals ∧
      (∀ name, session.machine.store.get? session.machine.current name =
        session.machine.store.local? Machine.globals name) ∧
      ∀ n front mid, Action.executeAll n front session.machine = .done .normal mid →
        mid.current = Machine.globals ∧ mid.DeclaresGlobals := by
  have here := reached.amongGlobals (Machine.amongGlobals_hosted sink clock hosts)
  refine ⟨Action.restores, fun n scope stmts => ((Action.restores n).executeAll stmts).within scope,
    here.current, here.get?_current, fun n front mid ran => ?_⟩
  have restored := (Action.restores n).executeAll front session.machine
  rw [ran] at restored
  have later := here.restored restored
  exact ⟨later.current, later.declaresGlobals⟩

/-- A step that is aborted inside a call leaves a scope behind, and the next one among the globals. -/
theorem scopes_restored_abort :
    let source := "fun f() \x7b nil(); \x7d f();"
    ∃ after, Reaches (.hosted (.direct .empty) (fun _ => 0) []) (fun _ => .run source) 1
        (Session.watched 20 0 [] ⟨.hosted (.direct .empty) (fun _ => 0) [], .empty⟩ (.run source)).1
        after ∧
      Session.run 20 source ⟨.hosted (.direct .empty) (fun _ => 0) [], .empty⟩ =
        some (.runtimeError, after) ∧
      after.machine.store.scopes.size = 2 ∧ after.machine.current = Machine.globals := by
  intro source
  have ended : ((Compilation.ofSource source).runnable?.bind fun program =>
      ((Machine.hosted (.direct .empty) (fun _ => 0) []).interpret 20 program).map fun told =>
        (told.1.isSome, told.2.store.scopes.size)) = some (true, 2) := by
    simp only [source]
    decide +kernel
  clear_value source
  obtain ⟨program, runnable, ended⟩ := Option.bind_eq_some_iff.mp ended
  obtain ⟨⟨fault?, machine⟩, interpreted, same⟩ := Option.map_eq_some_iff.mp ended
  obtain ⟨faulty, size⟩ := Prod.mk.inj same
  obtain ⟨fault, rfl⟩ := Option.isSome_iff_exists.mp faulty
  obtain ⟨after, ran, rfl⟩ : ∃ after : Session,
      Session.run 20 source ⟨.hosted (.direct .empty) (fun _ => 0) [], .empty⟩ =
        some (.runtimeError, after) ∧ after.machine = machine :=
    ⟨_, by simp only [Session.run, Session.runOf, Session.behindRun, runnable, interpreted]; rfl, rfl⟩
  have reached : Reaches (.hosted (.direct .empty) (fun _ => 0) []) (fun _ => .run source) 1
      (Session.watched 20 0 [] ⟨.hosted (.direct .empty) (fun _ => 0) [], .empty⟩ (.run source)).1
      after := .answer .start (by rw [answer, ran]; rfl)
  exact ⟨after, reached, ran, size, (scopes_restored _ _ [] reached).2.2.1⟩

end Session

end LoxLang
