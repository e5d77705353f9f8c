import Mathlib
import LoxLang.Proofs.ForLoop.Alongside
import LoxLang.Proofs.ForLoop.Parse
import LoxLang.Proofs.Session.Joined
import LoxLang.Proofs.Session.Refusal

/-!
# A session that reads `for` loops directly

The direct reading of a whole session: every source is read with its loops, bound with one scope for an
initializer, and run round by round.  Functions declared by one request keep their loops, so calls of
them in later requests are read directly as well.

* `Reading` — such a session; `Reading.run`, `Reading.evaluate` — its steps.
* `World.Answers`, `World.Beside` — the same answer, and the same state of a session.
* **`Reading.respondAll_direct`** — a session answers any requests as its direct reading does, and
  afterwards all variables are the same, those that functions have captured included.
-/

namespace LoxLang

namespace Looped

/-- A session in which `for` loops are read directly. -/
structure Reading where
  machine : Machine
  /-- The bodies of the functions declared so far, with their loops. -/
  bodies : Bodies
  log : Log

namespace Reading

/-! ## Steps -/

/-- The direct reading at its start. -/
def start (sink : Sink) (clock : Nat → Float) : Reading := ⟨.start sink clock, [], .empty⟩

/-- The declarations of a source, with their loops and with the hops of their occurrences. -/
def program (source : String) : List Declaration :=
  Declaration.boundAll [] (parse (Scan.tokens (Scan.items source))).tree

/-- A session with the bodies of its functions. -/
def keeping (bodies : Bodies) (session : Session) : Reading := ⟨session.machine, bodies, session.log⟩

/-- Runs a program if nothing is wrong with it. -/
def run (allowance : Nat) (source : String) (reading : Reading) : Option (Status × Reading) :=
  let problems := (Compilation.ofSource source).problems
  let log := reading.log.reset.reportAll problems
  if problems.isEmpty then
    let (outcome, bodies) := interpret allowance (program source) reading.bodies reading.machine
    (Session.behindRun log outcome).map fun told => (told.1, keeping bodies told.2)
  else some (.compileError, { reading with log })

/-- Evaluates an expression, whose names are all global. -/
def evaluate (allowance : Nat) (source : String) (reading : Reading) :
    Option (Except Status Value × Reading) :=
  let (expression, problems) := Program.readExpression source
  let log := reading.log.reset.reportAll problems
  match expression, problems with
  | some expression, [] =>
    let ending := Looped.evaluate allowance expression reading.bodies reading.machine
    (Session.behindValue log ending.outcome).map fun told => (told.1, keeping ending.bodies told.2)
  | _, _ => some (.error .compileError, { reading with log })

/-- The answer of a step, and the reading with its diagnostics drained. -/
def answered (result : Status × Option Value) (after : Reading) : Answer × Reading :=
  (⟨result.1, result.2, after.log.take.1, after.machine.sink⟩, { after with log := after.log.take.2 })

/-- The answer to a request; nothing if the allowance is used up. -/
def respond (allowance : Nat) (reading : Reading) : Request → Option (Answer × Reading)
  | .run source => (reading.run allowance source).map fun told => answered (told.1, none) told.2
  | .evaluate source =>
    (reading.evaluate allowance source).map fun told => answered (Answer.ofResult told.1) told.2

/-- The answers to requests, each with an allowance of its own. -/
def respondAll (reading : Reading) : List (Nat × Request) → Option (List Answer × Reading)
  | [] => some ([], reading)
  | (allowance, request) :: others =>
    (reading.respond allowance request).bind fun first =>
      (first.2.respondAll others).map fun rest => (first.1 :: rest.1, rest.2)

end Reading

/-! ## Sessions side by side -/

namespace World

/-- Two answers are the same; functions up to the scopes they were declared in. -/
structure Answers (w : World) (answer answer' : Answer) : Prop where
  status : answer'.status = answer.status
  value : Option.Rel w.Mirrors answer.value answer'.value
  diagnostics : answer'.diagnostics = answer.diagnostics
  sink : answer'.sink = answer.sink

/-- A direct reading and a session have the same variables, and wait for the next request. -/
structure Beside (w : World) (reading : Reading) (session : Session) : Prop where
  machine : w.Mirror reading.machine session.machine
  globals : reading.machine.current = Machine.globals ∧ session.machine.current = Machine.globals
  bodies : reading.bodies = w.bodies
  log : session.log = reading.log

variable {w later : World} {reading : Reading} {session : Session}

lemma Answers.mono {answer answer' : Answer} (same : w.Answers answer answer')
    (grows : w.Grows later) : later.Answers answer answer' :=
  ⟨same.status, rel_imp same.value fun _ _ one => one.mono grows, same.diagnostics, same.sink⟩

lemma Beside.withLog (beside : w.Beside reading session) (log : Log) :
    w.Beside { reading with log } { session with log } :=
  ⟨beside.machine, beside.globals, beside.bodies, rfl⟩

/-- The globals are the place at which a step of a session begins. -/
lemma Beside.stands (beside : w.Beside reading session) :
    w.Stands [0] reading.machine.current session.machine.current := by
  rw [beside.globals.1, beside.globals.2]
  exact w.stands_globals

/-- Flushing tells the same and changes nothing but the sink. -/
lemma Mirror.flush {machine machine' : Machine} (mirror : w.Mirror machine machine')
    (fault : Option Fault) : ∃ told sink, machine.flush fault = (told, { machine with sink }) ∧
      machine'.flush fault = (told, { machine' with sink }) := by
  simp only [Machine.flush, mirror.sink]
  rcases machine.sink.flush with ⟨_ | error, sink⟩
  · exact ⟨fault, sink, rfl, rfl⟩
  · exact ⟨some (.output error), sink, rfl, rfl⟩

/-- At the start only the globals exist. -/
def beginning : World where
  place := [0]
  bodies := []
  links := [none]
  links' := [none]
  length := rfl
  increasing := List.pairwise_singleton _ _
  bounded := fun _ mem => by rw [List.mem_singleton.mp mem]; exact Nat.one_pos
  globals := ⟨rfl, rfl, rfl⟩

lemma beside_start (sink : Sink) (clock : Nat → Float) :
    beginning.Beside (.start sink clock) (.start sink clock) := by
  have links : ∀ i < 1, [none][i]? = some ((Machine.start sink clock).store.outer? i) := by
    intro i low
    obtain rfl : i = 0 := by omega
    simp only [Machine.start, Machine.register, Store.outer?_define]
    rfl
  have size : (Machine.start sink clock).store.scopes.size = 1 := Store.size_define _ _ _ _
  refine ⟨⟨size, size, links, links, ?_, ?_, rfl, rfl, Machine.unhosted_start sink clock, rfl, rfl,
    rfl, rfl⟩, ⟨rfl, rfl⟩, rfl, rfl⟩
  · intro i i' place name
    obtain ⟨low, rfl⟩ := List.getElem?_eq_some_iff.mp place
    obtain rfl : i = 0 := Nat.lt_one_iff.mp low
    show Option.Rel _ ((Machine.start sink clock).store.local? 0 name)
      ((Machine.start sink clock).store.local? 0 name)
    simp only [Machine.start, Machine.register, Store.local?_define, Store.local?_root_empty]
    split
    · exact .some (.native _ _)
    · exact .none
  · intro i' outside name
    have low : i' ≠ 0 := fun zero => outside (List.mem_singleton.mpr zero)
    simp only [Session.start, Machine.start, Machine.register, Store.local?_define,
      Store.local?_root_empty]
    rw [if_neg fun both => low both.1]

end World

/-! ## One request -/

namespace Reading

variable {w : World} {reading : Reading} {session : Session}

/-- What a step of the direct reading and one of the session come to, side by side. -/
def Told (w : World) {α : Type} (R : World → α → α → Prop) (told : α × Reading)
    (told' : α × Session) : Prop :=
  ∃ later : World, w.Grows later ∧ R later told.1 told'.1 ∧ later.Beside told.2 told'.2

/-- The declarations of an accepted source, laid out where no scope is empty, are what is run. -/
lemma laidAll_program {source : String} {tree : List Stmt} (accepts : Program.Accepts source tree) :
    Program.bound tree = Declaration.laidAll [0] (program source) := by
  have read : tree = (Program.parse (Scan.tokens (Scan.items source))).tree :=
    (congrArg Prod.fst accepts.read).symm
  have fresh := (Program.parse_fresh (Scan.tokens (Scan.items source))).2
  rw [read]
  rw [parse_desugared] at fresh ⊢
  exact bound_program _ fresh

/-- **A program is run as it is read directly**, and a refused one is refused. -/
lemma run_beside (beside : w.Beside reading session) (allowance : Nat) (source : String) :
    Option.Rel (Told w fun _ status status' => status' = status)
      (reading.run allowance source) (session.run allowance source) := by
  by_cases sound : (Compilation.ofSource source).problems = []
  · obtain ⟨tree, accepts⟩ := Program.exists_accepts sound
    have ends := (accompanied allowance).performAll w [] (program source) w (.refl w) _ _
      beside.machine beside.stands
    have log : reading.log.reset.reportAll [] = session.log.reset := by rw [beside.log]; rfl
    rw [Session.run_of_accepts accepts, laidAll_program accepts]
    simp only [run, sound, List.isEmpty_nil, if_true, interpret, beside.bodies, log]
    generalize performAll allowance (program source) w.bodies reading.machine = ending at ends
    generalize Action.executeAll allowance _ session.machine = outcome at ends
    cases ends with
    | @done later completion completion' after after' grows mirror same same' _ =>
        obtain ⟨told, sink, flushed, flushed'⟩ := mirror.flush none
        have globals := And.intro (same.trans beside.globals.1) (same'.trans beside.globals.2)
        simp only [Session.concluded, Session.behindRun, Outcome.flushed, flushed, flushed']
        cases told with
        | none => exact .some ⟨later, grows, rfl, mirror.withSink sink, globals, rfl, rfl⟩
        | some fault => exact .some ⟨later, grows, rfl, mirror.withSink sink, globals, rfl, rfl⟩
    | @failed later fault after after' grows mirror same same' =>
        obtain ⟨told, sink, flushed, flushed'⟩ := mirror.flush (some fault)
        have globals := And.intro (same.trans beside.globals.1) (same'.trans beside.globals.2)
        simp only [Session.concluded, Session.behindRun, Outcome.flushed, flushed, flushed']
        cases told with
        | none => exact .some ⟨later, grows, rfl, mirror.withSink sink, globals, rfl, rfl⟩
        | some fault => exact .some ⟨later, grows, rfl, mirror.withSink sink, globals, rfl, rfl⟩
    | exhausted => exact .none
  · have refused : (Compilation.ofSource source).problems.isEmpty = false := by
      simpa using sound
    simp only [run, Session.run, Session.runOf, Compilation.runnable?, refused, beside.log]
    exact .some ⟨w, .refl w, rfl, beside.withLog _⟩

/-- An expression is evaluated as it is read directly. -/
lemma evaluate_beside (beside : w.Beside reading session) (allowance : Nat) (source : String) :
    Option.Rel (Told w fun later result result' => (Answer.ofResult result').1 =
        (Answer.ofResult result).1 ∧ Option.Rel later.Mirrors (Answer.ofResult result).2
          (Answer.ofResult result').2)
      (reading.evaluate allowance source) (session.evaluate allowance source) := by
  have refused : ∀ log, Told w (fun later result result' => (Answer.ofResult result').1 =
        (Answer.ofResult result).1 ∧ Option.Rel later.Mirrors (Answer.ofResult result).2
          (Answer.ofResult result').2)
      (.error .compileError, { reading with log }) (.error .compileError, { session with log }) :=
    fun log => ⟨w, .refl w, ⟨rfl, .none⟩, beside.withLog log⟩
  have fresh := @Program.readExpression_fresh source
  simp only [evaluate, Session.evaluate, Session.evaluateOf, Session.behindValue, beside.log]
  generalize Program.readExpression source = given at fresh
  obtain ⟨_ | expression, _ | ⟨problem, problems⟩⟩ := given
  case some.nil =>
    have ends := (accompanied allowance).evaluate w [0] expression w (.refl w) _ _
      beside.machine beside.stands
    -- no occurrence has hops yet
    have plain : expression.revised (Layout.revision [0]) = expression :=
      Expr.revised_eq_self rfl expression fun occurrence mem => by rw [fresh rfl occurrence mem]; rfl
    rw [plain] at ends
    simp only [beside.bodies]
    generalize Looped.evaluate allowance expression w.bodies reading.machine = ending at ends
    generalize Action.evaluate allowance expression session.machine = outcome at ends
    cases ends with
    | @done later value value' after after' grows mirror same same' mirrors =>
        have globals := And.intro (same.trans beside.globals.1) (same'.trans beside.globals.2)
        exact .some ⟨later, grows, ⟨rfl, .some mirrors⟩, mirror, globals, rfl, rfl⟩
    | @failed later fault after after' grows mirror same same' =>
        have globals := And.intro (same.trans beside.globals.1) (same'.trans beside.globals.2)
        exact .some ⟨later, grows, ⟨rfl, .none⟩, mirror, globals, rfl, rfl⟩
    | exhausted => exact .none
  all_goals exact .some (refused _)

/-- The diagnostics are drained in both. -/
lemma answered_beside {result result' : Status × Option Value} (beside : w.Beside reading session)
    (status : result'.1 = result.1) (value : Option.Rel w.Mirrors result.2 result'.2) :
    w.Answers (answered result reading).1 (Session.answered result' session).1 ∧
      w.Beside (answered result reading).2 (Session.answered result' session).2 := by
  have pending := congrArg Log.pending beside.log
  have log := congrArg (fun log : Log => log.take.2) beside.log
  exact ⟨⟨status, value, pending, beside.machine.sink⟩, beside.machine, beside.globals,
    beside.bodies, log⟩

/-- **A request is answered as it is read directly.** -/
lemma respond_beside (beside : w.Beside reading session) (allowance : Nat) (request : Request) :
    Option.Rel (Told w World.Answers) (reading.respond allowance request)
      (session.respond allowance request) := by
  cases request with
  | run source =>
      simp only [respond, Session.respond]
      refine rel_map (run_beside beside allowance source) fun _ _ told => ?_
      obtain ⟨later, grows, status, after⟩ := told
      exact ⟨later, grows, answered_beside after status .none⟩
  | evaluate source =>
      simp only [respond, Session.respond]
      refine rel_map (evaluate_beside beside allowance source) fun _ _ told => ?_
      obtain ⟨later, grows, ⟨status, value⟩, after⟩ := told
      exact ⟨later, grows, answered_beside after status value⟩

/-! ## All requests -/

lemma respondAll_beside (requests : List (Nat × Request)) (beside : w.Beside reading session) :
    Option.Rel (Told w fun later => List.Forall₂ later.Answers) (reading.respondAll requests)
      (session.respondAll requests) := by
  induction requests generalizing w reading session with
  | nil => exact .some ⟨w, .refl w, .nil, beside⟩
  | cons first others ih =>
      obtain ⟨allowance, request⟩ := first
      simp only [respondAll, Session.respondAll]
      refine rel_bind (respond_beside beside allowance request) fun first first' told => ?_
      obtain ⟨middle, grows, same, after⟩ := told
      refine rel_map (ih after) fun _ _ rest => ?_
      obtain ⟨later, further, alike, last⟩ := rest
      exact ⟨later, grows.trans further, .cons (same.mono further) alike, last⟩

/-- **`for` loops mean what their direct reading means.**  Asked the same requests with the same
allowances, a session and its direct reading either both use an allowance up, or they give the same
answers, output and diagnostics included, and end with the same variables: those of the globals, and
those in all scopes that functions have captured, whose bodies are the same as well. -/
theorem respondAll_direct (sink : Sink) (clock : Nat → Float) (requests : List (Nat × Request)) :
    Option.Rel (fun told told' => ∃ w : World, List.Forall₂ w.Answers told.1 told'.1 ∧
        w.Beside told.2 told'.2)
      ((Reading.start sink clock).respondAll requests)
      ((Session.start sink clock).respondAll requests) :=
  rel_imp (respondAll_beside requests (World.beside_start sink clock))
    fun _ _ ⟨w, _, answers, beside⟩ => ⟨w, answers, beside⟩

end Reading

end Looped

end LoxLang
