import LoxLang.Proofs.Evaluation.LexicalRun
import LoxLang.Proofs.Evaluation.Replay
import LoxLang.Session

/-!
# The visits of a session

A session answers requests one after another, and functions declared by one request may be called by
a later one.  Its states are therefore kept together with the positions of all declarations so far.

* `Request`, `Session.answer` — what a session can be asked, and what it does then.
* `Session.Reaches` — a state that a session comes to, with the functions of the host it began with.
* `Session.watched` — the visits that the next answer makes, and `Session.fault?`, why it stops.
* **`Session.visits_lexical`** — every read and assignment is visited, at every visit the hops lead to
  the scope that they stand for, and an undefined variable is never one with hops.
-/

namespace LoxLang

/-- What a session can be asked. -/
inductive Request where
  | run (source : String)
  | evaluate (source : String)

/-- The statements of a request before their names are bound; none if nothing of it will run. -/
def Request.text : Request → List Stmt
  | .run source =>
    if (Compilation.ofSource source).runnable?.isSome then (Program.read source).1 else []
  | .evaluate _ => []

/-- The statements of all requests of a session, by their numbers. -/
def Request.texts (requests : Nat → Request) (step : Nat) : List Stmt := (requests step).text

/-- The machine at the start of a session whose host makes some functions known. -/
def Machine.hosted (sink : Sink) (clock : Nat → Float) (hosts : List (String × Native)) : Machine :=
  hosts.foldl (fun machine host => machine.register host.1 host.2) (.start sink clock)

namespace Session

/-- The session after a request; nothing if the allowance is used up. -/
def answer (allowance : Nat) (session : Session) : Request → Option Session
  | .run source => (session.run allowance source).map Prod.snd
  | .evaluate source => (session.evaluate allowance source).map Prod.snd

/-- Why the execution of a request stops; nothing if it does not, or if nothing is executed. -/
def fault? (allowance : Nat) (session : Session) : Request → Option Fault
  | .run source =>
    match (Compilation.ofSource source).runnable? with
    | none => none
    | some program => (session.machine.interpret allowance program).bind Prod.fst
  | .evaluate source =>
    match Program.readExpression source with
    | (some expression, []) =>
      match Action.evaluate allowance expression session.machine with
      | .failed fault _ => some fault
      | _ => none
    | _ => none

/-- The positions of all declarations after a request, and the visits that it makes. -/
def watched (allowance step : Nat) (origins : List Position) (session : Session) :
    Request → List Position × List Visit
  | .run source =>
    match (Compilation.ofSource source).runnable? with
    | none => (origins, [])
    | some program =>
      let run := Watch.steps.executeAll allowance program ⟨[0, step], []⟩ origins session.machine
      (run.origins, run.visits)
  | .evaluate source =>
    match Program.readExpression source with
    | (some expression, []) =>
      let run := Watch.steps.evaluate allowance expression ⟨[step], []⟩ origins session.machine
      (run.origins, run.visits)
    | _ => (origins, [])

/-- A state in front of the request of a number, with the positions of all declarations so far.  The
allowance is another one for each request, and output and diagnostics are taken at any time. -/
inductive Reaches (start : Machine) (requests : Nat → Request) :
    Nat → List Position → Session → Prop where
  | start : Reaches start requests 0 [] ⟨start, .empty⟩
  | answer {step allowance : Nat} {origins : List Position} {session after : Session} :
      Reaches start requests step origins session →
      session.answer allowance (requests step) = some after →
      Reaches start requests (step + 1)
        (session.watched allowance step origins (requests step)).1 after
  | takeOutput {step : Nat} {origins : List Position} {session : Session} :
      Reaches start requests step origins session →
      Reaches start requests step origins session.takeOutput.2
  | takeDiagnostics {step : Nat} {origins : List Position} {session : Session} :
      Reaches start requests step origins session →
      Reaches start requests step origins session.takeDiagnostics.2

end Session

/-! ## The start -/

lemma Machine.Placed.register {texts : Nat → List Stmt} {machine : Machine} {name : String}
    {native : Native} (given : machine.Placed texts []) (modest : native.Modest) :
    (machine.register name native).Placed texts [] := by
  have value : (Value.native machine.natives.length native.arity).Placed texts []
      machine.store := trivial
  have placed := (given.define Machine.globals name value).placed
  refine ⟨placed.events, placed.globals, ?_, placed.values⟩
  intro other known
  rcases List.mem_append.mp known with old | new
  · exact given.natives other old
  · rw [List.mem_singleton.mp new]
    exact modest

lemma Machine.placed_start (texts : Nat → List Stmt) (sink : Sink) (clock : Nat → Float) :
    (Machine.start sink clock).Placed texts [] := by
  refine Machine.Placed.register ⟨rfl, Nat.zero_lt_one, ?_, ?_⟩ trivial
  · intro native known
    cases known
  · intro i name value placed
    rw [Store.local?_root_empty] at placed
    cases placed

/-- A session at its start: no function has been declared, and the globals are current. -/
lemma Machine.placed_hosted (texts : Nat → List Stmt) (sink : Sink) (clock : Nat → Float) :
    ∀ hosts : List (String × Native), (∀ host ∈ hosts, host.2.Modest) →
      (Machine.hosted sink clock hosts).Placed texts []
        ∧ (Machine.hosted sink clock hosts).current = Machine.globals := by
  intro hosts
  induction hosts using List.reverseRecOn with
  | nil => exact fun _ => ⟨Machine.placed_start texts sink clock, rfl⟩
  | append_singleton hosts host ih =>
      intro modest
      rw [List.forall_mem_append, List.forall_mem_singleton] at modest
      obtain ⟨placed, current⟩ := ih modest.1
      rw [Machine.hosted, List.foldl_append]
      exact ⟨placed.register modest.2, current⟩

/-! ## One request -/

/-- What runs has been read without errors and has no scope errors. -/
lemma Compilation.exists_of_runnable? {source : String} {program : List Stmt}
    (found : (ofSource source).runnable? = some program) :
    ∃ tree, Program.read source = (tree, []) ∧ Program.mistakes tree = []
      ∧ program = Program.bound tree := by
  unfold ofSource at found
  rcases read : Program.read source with ⟨tree, problems⟩
  rw [read] at found
  cases problems with
  | nil =>
      simp only [runnable?, List.isEmpty_map] at found
      split_ifs at found with mistakes
      exact ⟨tree, rfl, List.isEmpty_iff.mp mistakes, (Option.some.inj found).symm⟩
  | cons problem others => simp [runnable?] at found

lemma Request.accepted (request : Request) :
    Stmt.FreshAll request.text ∧ Program.mistakes request.text = [] := by
  cases request with
  | run source =>
      simp only [Request.text]
      split_ifs with some_
      · obtain ⟨program, runs⟩ := Option.isSome_iff_exists.mp some_
        obtain ⟨tree, read, mistakes, _⟩ := Compilation.exists_of_runnable? runs
        refine ⟨Program.read_fresh source, ?_⟩
        rw [read]
        exact mistakes
      · exact ⟨Parser.freshAll_nil, rfl⟩
  | evaluate source => exact ⟨Parser.freshAll_nil, rfl⟩

namespace Session

variable {texts : Nat → List Stmt} {origins : List Position} {session : Session}

/-- Between two requests every kept function is placed and the globals are current. -/
structure Placed (texts : Nat → List Stmt) (origins : List Position) (session : Session) : Prop where
  machine : session.machine.Placed texts origins
  current : session.machine.current = Machine.globals

lemma Placed.follows (placed : session.Placed texts origins) {origins' : List Position}
    {after : Machine} (follows : Follows texts origins' session.machine after) (sink : Sink)
    (log : Log) :
    Placed texts origins' ⟨{ after with sink }, log⟩ :=
  ⟨⟨follows.placed.events, follows.placed.globals, follows.placed.natives,
    follows.placed.values⟩, follows.current.trans placed.current⟩

/-- Flushing changes nothing but the sink, and tells of nothing but the sink. -/
lemma flush_cases (fault : Option Fault) (machine : Machine) : ∃ told sink,
    machine.flush fault = (told, { machine with sink })
      ∧ (told = fault ∨ ∃ error, told = some (.output error)) := by
  rcases flush : machine.sink.flush with ⟨_ | error, sink⟩
  · exact ⟨fault, sink, by rw [Machine.flush, flush], Or.inl rfl⟩
  · exact ⟨some (.output error), sink, by rw [Machine.flush, flush], Or.inr ⟨error, rfl⟩⟩

lemma Placed.flushed (placed : session.Placed texts origins) {origins' : List Position}
    {after : Machine} (follows : Follows texts origins' session.machine after)
    (fault : Option Fault) {visits : List Visit}
    (explained : ∀ found, fault = some found → found.Explained visits) (log : Log) :
    (∀ found, (some (after.flush fault)).bind Prod.fst = some found → found.Explained visits)
      ∧ ∀ next : Session, Option.map Prod.snd (match some (after.flush fault) with
          | none => none
          | some (none, machine) => some (Status.completed, Session.mk machine log)
          | some (some fault, machine) =>
            some (.runtimeError, ⟨machine, log.report fault.diagnostic⟩)) = some next →
        next.Placed texts origins' := by
  obtain ⟨told, sink, flush, tells⟩ := flush_cases fault after
  rw [flush]
  constructor
  · intro found finds
    rcases tells with rfl | ⟨error, rfl⟩
    · exact explained found finds
    · intro name line h
      obtain rfl := Option.some.inj finds
      cases h
  · intro next kept
    cases told with
    | none =>
        obtain rfl := Option.some.inj kept
        exact placed.follows follows sink log
    | some found =>
        obtain rfl := Option.some.inj kept
        exact placed.follows follows sink _

/-- What is to be shown of the answer to one request. -/
def Answered (texts : Nat → List Stmt) (allowance step : Nat) (origins : List Position)
    (session : Session) (request : Request) : Prop :=
  (∀ visit ∈ (session.watched allowance step origins request).2, visit.Lexical texts)
    ∧ (∀ fault, session.fault? allowance request = some fault →
        fault.Explained (session.watched allowance step origins request).2)
    ∧ ∀ after, session.answer allowance request = some after →
        after.Placed texts (session.watched allowance step origins request).1

lemma Placed.answered_run (accepted : Accepted texts) (placed : session.Placed texts origins)
    (allowance step : Nat) (source : String) (text : texts step = (Request.run source).text) :
    Answered texts allowance step origins session (.run source) := by
  cases runs : (Compilation.ofSource source).runnable? with
  | none =>
      simp only [Answered, watched, fault?, answer, run, runOf, runs]
      refine ⟨fun _ h => absurd h List.not_mem_nil, fun _ h => absurd h (by simp), ?_⟩
      intro after answers
      obtain rfl := Option.some.inj answers
      exact ⟨placed.machine, placed.current⟩
  | some program =>
      obtain ⟨tree, read, _, rfl⟩ := Compilation.exists_of_runnable? runs
      have same : texts step = tree := by
        rw [text]
        simp only [Request.text, runs, read, Option.isSome_some, if_true]
      have ready : Ready texts [] ⟨[step], []⟩ origins session.machine :=
        ⟨by rw [placed.current]; exact Fits.globals, placed.machine⟩
      have stands : Stands texts [] [step] (.several 0 tree) := same ▸ Stands.program step
      have keeps := (Watch.lexical accepted allowance).executeAll ready 0 tree stands
      have erases := (Watch.faithful allowance).executeAll (Program.bound tree) ⟨[0, step], []⟩
        origins session.machine
      simp only [Answered, watched, fault?, answer, run, runOf, behindRun, runs, Machine.interpret,
        Outcome.flushed]
      refine ⟨keeps.2.1, ?_⟩
      cases ran : Action.executeAll allowance (Program.bound tree) session.machine with
      | done completion after =>
          obtain ⟨follows, _⟩ := keeps.of_done (erases.trans ran)
          refine placed.flushed follows none ?_ _
          intro fault h
          cases h
      | failed fault after =>
          obtain ⟨follows, explained⟩ := keeps.of_failed (erases.trans ran)
          refine placed.flushed follows (some fault) ?_ _
          intro other h
          rw [← Option.some.inj h]
          exact explained
      | exhausted => exact ⟨fun _ h => absurd h (by simp), fun _ h => absurd h (by simp)⟩

lemma Placed.answered_evaluate (accepted : Accepted texts) (placed : session.Placed texts origins)
    (allowance step : Nat) (source : String) :
    Answered texts allowance step origins session (.evaluate source) := by
  have idle : ∀ log, Session.Placed texts origins { session with log } :=
    fun _ => ⟨placed.machine, placed.current⟩
  rcases read : Program.readExpression source with ⟨_ | expression, _ | ⟨problem, problems⟩⟩
  case some.nil =>
    -- all names of the expression are global
    have fresh := Program.readExpression_fresh (show (Program.readExpression source).1
      = some expression by rw [read])
    have ready : Ready texts [] ⟨[step], []⟩ origins session.machine :=
      ⟨by rw [placed.current]; exact Fits.globals, placed.machine⟩
    have keeps := (Watch.lexical accepted allowance).evaluate ready expression
      (fun o occurs distance hops => by rw [fresh o occurs] at hops; cases hops)
    have erases := (Watch.faithful allowance).evaluate expression ⟨[step], []⟩ origins
      session.machine
    have kept : ∀ {after log}, Follows texts _ session.machine after → Session.Placed texts
        (Watch.steps.evaluate allowance expression ⟨[step], []⟩ origins session.machine).origins
        ⟨after, log⟩ :=
      fun follows => ⟨follows.placed, follows.current.trans placed.current⟩
    simp only [Answered, watched, fault?, answer, evaluate, evaluateOf, behindValue, read]
    refine ⟨keeps.2.1, ?_⟩
    cases run : Action.evaluate allowance expression session.machine with
    | done value after =>
        obtain ⟨follows, _⟩ := keeps.of_done (erases.trans run)
        refine ⟨fun _ h => absurd h (by simp), fun next h => ?_⟩
        obtain rfl := Option.some.inj h
        exact kept follows
    | failed fault after =>
        obtain ⟨follows, explained⟩ := keeps.of_failed (erases.trans run)
        constructor
        · intro found h
          rw [← Option.some.inj h]
          exact explained
        · intro next h
          obtain rfl := Option.some.inj h
          exact kept follows
    | exhausted => exact ⟨fun _ h => absurd h (by simp), fun _ h => absurd h (by simp)⟩
  all_goals
    simp only [Answered, watched, fault?, answer, evaluate, evaluateOf, read]
    refine ⟨fun _ h => absurd h List.not_mem_nil, fun _ h => absurd h (by simp), fun next h => ?_⟩
    obtain rfl := Option.some.inj h
    exact idle _

lemma Placed.answered (accepted : Accepted texts) (placed : session.Placed texts origins)
    (allowance step : Nat) (request : Request) (text : texts step = request.text) :
    Answered texts allowance step origins session request := by
  cases request with
  | run source => exact placed.answered_run accepted allowance step source text
  | evaluate source => exact placed.answered_evaluate accepted allowance step source

/-! ## All requests -/

lemma Reaches.placed {start : Machine} {requests : Nat → Request} {step : Nat}
    (begins : Placed (Request.texts requests) [] ⟨start, .empty⟩)
    (reached : Reaches start requests step origins session) :
    session.Placed (Request.texts requests) origins := by
  have accepted : Accepted (Request.texts requests) := fun step => (requests step).accepted
  induction reached with
  | start => exact begins
  | answer _ answers ih =>
      obtain ⟨_, _, next⟩ := ih.answered accepted _ _ _ rfl
      exact next _ answers
  | takeOutput _ ih => exact ih.follows ih.machine.follows _ _
  | takeDiagnostics _ ih => exact ⟨ih.machine, ih.current⟩

/-- **Resolved names are found.**  In every session whose host makes no functions of its own, every
visit that any request makes finds the scope that the hops of its occurrence stand for, and if a
variable turns out to be undefined, then the last visit was one of it and had no hops.  The visits are
those of the run itself, and every read and every assignment makes one. -/
theorem visits_lexical (sink : Sink) (clock : Nat → Float) (hosts : List (String × Native))
    (modest : ∀ host ∈ hosts, host.2.Modest) (requests : Nat → Request) (step : Nat)
    (origins : List Position) (session : Session)
    (reaches : Reaches (.hosted sink clock hosts) requests step origins session)
    (allowance : Nat) :
    (∀ n, Watch.Faithful n ∧ Watch.Replayed n)
      ∧ (∀ visit ∈ (session.watched allowance step origins (requests step)).2,
          visit.Lexical (Request.texts requests))
      ∧ ∀ name line, session.fault? allowance (requests step) = some (.runtime (.undefined name) line) →
        ∃ visit, (session.watched allowance step origins (requests step)).2.getLast? = some visit
          ∧ visit.occurrence.hops = none ∧ visit.occurrence.name.lexeme = name
          ∧ visit.occurrence.name.line = line := by
  obtain ⟨machine, current⟩ := Machine.placed_hosted (Request.texts requests) sink clock hosts modest
  have placed := reaches.placed ⟨machine, current⟩
  have accepted : Accepted (Request.texts requests) := fun step => (requests step).accepted
  obtain ⟨visits, explained, _⟩ := placed.answered accepted allowance step (requests step) rfl
  exact ⟨fun n => ⟨Watch.faithful n, Watch.replayed n⟩, visits,
    fun name line fault => explained _ fault name line rfl⟩

/-- A function that assigns a variable of the block around it and reads it in a block of its own makes
visits with one and with two hops. -/
theorem visits_lexical_closure :
    let hosts : List (String × Native) := [("seven", .host 0 fun _ => .ok (.number 7))]
    let start := Machine.hosted (.direct .empty) (fun _ => 0) hosts
    let requests : Nat → Request := fun _ =>
      .run "\x7b var a; fun f() \x7b a = true; \x7b a; \x7d \x7d f(); \x7d"
    let visits := (Session.watched 20 0 [] ⟨start, .empty⟩ (requests 0)).2
    (∀ host ∈ hosts, host.2.Modest) ∧ Reaches start requests 0 [] ⟨start, .empty⟩
      ∧ visits.map (fun visit => (visit.occurrence.assigned, visit.occurrence.hops))
        = [(false, some 0), (true, some 1), (false, some 2)]
      ∧ ∀ visit ∈ visits, visit.Lexical (Request.texts requests) := by
  intro hosts start requests visits
  have modest : ∀ host ∈ hosts, host.2.Modest := by
    intro host known
    rw [List.mem_singleton.mp known]
    intro arguments value result
    obtain rfl := Except.ok.inj result
    exact Or.inr fun _ _ h => by cases h
  refine ⟨modest, .start, ?_, ?_⟩
  · simp only [visits, start, hosts, requests]
    decide +kernel
  · exact (visits_lexical _ _ hosts modest requests 0 [] _ .start 20).2.1

end Session

end LoxLang
