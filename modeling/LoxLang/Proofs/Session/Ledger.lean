import Mathlib
import LoxLang.Proofs.Binding.Numbering
import LoxLang.Proofs.Evaluation.Revised
import LoxLang.Proofs.Session.Visits

/-!
# A session that keeps a ledger

A session can do its bookkeeping in one place for all its steps: a counter from which every occurrence
of every tree takes its number, and one table of hops under these numbers.  Such a ledger only grows.
Steps that are refused take numbers too, and a program that is refused for the use of its names has
left entries in the table by then; functions of earlier steps keep on reading the table when they are
called later.

* `Ledger` — a session with its ledger; `Ledger.run` and `Ledger.evaluate` — its steps.
* `Ledger.plain` — the session without it: the hops stand in the trees.
* **`Ledger.run_plain`**, **`Ledger.evaluate_plain`** — a step of the one is a step of the other, however
  the numbers are chosen.
-/

namespace LoxLang

/-- A session that keeps a ledger of hops. -/
structure Ledger where
  machine : Machine
  table : Table
  /-- The number that the next occurrence gets. -/
  next : Nat
  log : Log

namespace Ledger

/-- A session at its start, with nothing in its ledger. -/
def start (sink : Sink) (clock : Nat → Float) : Ledger :=
  ⟨.start sink clock, fun _ => none, 0, .empty⟩

/-! ## Steps -/

/-- A session with the ledger that a step leaves. -/
def keeping (table : Table) (next : Nat) (session : Session) : Ledger :=
  ⟨session.machine, table, next, session.log⟩

/-- Runs a program whose occurrences were given numbers below `next`.  The walk over a program that
could be read enters its hops in the table, whether or not it finds mistakes. -/
def run (allowance : Nat) (source : String) (numbered : List Stmt) (next : Nat) (ledger : Ledger) :
    Option (Status × Ledger) :=
  let problems := (Program.read source).2
  let log := ledger.log.reset.reportAll problems
  if problems ≠ [] then some (.compileError, { ledger with next, log })
  else
    let table := ledger.table.enterAll (Stmt.findingsAll [] numbered)
    let mistakes := (Program.mistakes numbered).map ScopeReport.diagnostic
    let log := log.reportAll mistakes
    if mistakes ≠ [] then some (.compileError, { ledger with table, next, log })
    else
      (Session.behindRun log (Tabled.interpret table.read allowance numbered ledger.machine)).map
        fun told => (told.1, keeping table next told.2)

/-- Evaluates an expression whose occurrences were given numbers below `next`.  There is no walk over
it, so its names are global. -/
def evaluate (allowance : Nat) (source : String) (numbered : Option Expr) (next : Nat)
    (ledger : Ledger) : Option (Except Status Value × Ledger) :=
  let problems := (Program.readExpression source).2
  let log := ledger.log.reset.reportAll problems
  match numbered, problems with
  | some expression, [] =>
    (Session.behindValue log
      ((Tabled.steps ledger.table.read).evaluate allowance expression ledger.machine)).map
      fun told => (told.1, keeping ledger.table next told.2)
  | _, _ => some (.error .compileError, { ledger with next, log })

/-- What a program that was executed leaves behind. -/
lemma of_behindRun {log : Log} {ran : Option (Option Fault × Machine)} {table : Table} {next : Nat}
    {status : Status} {after : Ledger}
    (ended : (Session.behindRun log ran).map (fun told => (told.1, keeping table next told.2)) =
      some (status, after)) :
    status ≠ .compileError ∧
      ∃ fault machine log, ran = some (fault, machine) ∧ after = ⟨machine, table, next, log⟩ := by
  rcases ran with _ | ⟨_ | fault, machine⟩
  · cases ended
  · cases ended
    exact ⟨nofun, none, machine, _, rfl, rfl⟩
  · cases ended
    exact ⟨nofun, some fault, machine, _, rfl, rfl⟩

/-- What an expression that was evaluated leaves behind. -/
lemma of_behindValue {log : Log} {outcome : Outcome Value} {table : Table} {next : Nat}
    {result : Except Status Value} {after : Ledger}
    (ended : (Session.behindValue log outcome).map (fun told => (told.1, keeping table next told.2)) =
      some (result, after)) :
    result ≠ .error .compileError ∧
      ∃ machine log, after = ⟨machine, table, next, log⟩ ∧
        ((∃ value, outcome = .done value machine) ∨ ∃ fault, outcome = .failed fault machine) := by
  cases outcome with
  | done value machine =>
      cases ended
      exact ⟨nofun, machine, _, rfl, .inl ⟨value, rfl⟩⟩
  | failed fault machine =>
      cases ended
      exact ⟨nofun, machine, _, rfl, .inr ⟨fault, rfl⟩⟩
  | exhausted => cases ended

/-! ## Without the ledger -/

/-- The session without its ledger: what the table tells stands in the trees. -/
def plain (ledger : Ledger) : Session := ⟨ledger.machine.revised ledger.table.revision, ledger.log⟩

/-- A program that was executed ends a step in the same way without the ledger. -/
lemma behindRun_plain (log : Log) (table : Table) (next : Nat) (ran : Option (Option Fault × Machine)) :
    Session.behindRun log (ran.map fun told => (told.1, told.2.revised table.revision)) =
      ((Session.behindRun log ran).map fun told => (told.1, keeping table next told.2)).map
        fun told => (told.1, told.2.plain) := by
  rcases ran with _ | ⟨_ | fault, machine⟩ <;> rfl

/-- A value without the ledger. -/
def plainValue (ledger : Ledger) (value : Value) : Value := value.revised ledger.table.revision

end Ledger

/-- Forgets the numbers from `next` on. -/
def Revision.below (next : Nat) : Revision := ⟨id, fun number => number.filter (· < next)⟩

/-- **What holds between two steps**: all numbers in use are below the counter, in the functions that
are kept and in the table. -/
structure Ledger.Sound (ledger : Ledger) : Prop where
  unhosted : ledger.machine.Unhosted
  kept : ledger.machine.revised (.below ledger.next) = ledger.machine
  free : ∀ number, ledger.next ≤ number → ledger.table number = none

/-! ## The counter -/

namespace Revision

/-- The numbers left alone are those below the counter. -/
lemma hops_below {next number : Nat} :
    (below next).hops (some number) = some number ↔ number < next := by
  simp [below, Option.filter]

/-- What was below the counter is below a later one. -/
lemma below_mono {machine : Machine} {next next' : Nat} (le : next ≤ next')
    (kept : machine.revised (below next) = machine) : machine.revised (below next') = machine := by
  refine Machine.revised_eq_self_imp rfl (fun hops fixed => ?_) kept
  cases hops with
  | none => rfl
  | some number => exact hops_below.mpr ((hops_below.mp fixed).trans_le le)

/-- Numbers below the counter are left alone. -/
lemma keeps_below {low next : Nat} {occurrences : List Occurrence}
    (numbers : Numbers low next occurrences) : (below next).Keeps occurrences := by
  intro occurrence mem
  obtain ⟨number, carried, _, used⟩ := numbers.within occurrence mem
  rw [carried]
  exact hops_below.mpr used

/-- A table that says nothing from the counter on reads the same below it. -/
lemma read_below {table : Table} {next : Nat} (free : ∀ number, next ≤ number → table number = none) :
    table.read ∘ (below next).hops = table.read := by
  funext number
  cases number with
  | none => rfl
  | some number =>
      by_cases used : number < next
      · simp [below, Option.filter, used]
      · simp [below, Option.filter, used, Table.read, free number (Nat.le_of_not_lt used)]

/-- Where two tables agree below the counter, they give back the same state. -/
lemma revised_of_agree {machine : Machine} {next : Nat} {table table' : Table}
    (kept : machine.revised (below next) = machine)
    (agree : ∀ number, number < next → table' number = table number) :
    machine.revised table'.revision = machine.revised table.revision := by
  have same : table'.revision.comp (below next) = table.revision.comp (below next) := by
    refine Revision.ext rfl (funext fun number => ?_)
    cases number with
    | none => rfl
    | some number =>
        by_cases used : number < next
        · simp [comp, below, Option.filter, used, Table.revision, Table.read, agree number used]
        · simp [comp, below, Option.filter, used, Table.revision, Table.read]
  calc machine.revised table'.revision
      = machine.revised (table'.revision.comp (below next)) := by
        rw [Machine.revised_comp, kept]
    _ = machine.revised (table.revision.comp (below next)) := by rw [same]
    _ = machine.revised table.revision := by rw [Machine.revised_comp, kept]

end Revision

namespace Ledger

variable {ledger : Ledger} {next : Nat}

/-! ## Refused steps -/

/-- Numbers that are taken and not used change nothing. -/
lemma Sound.skip (sound : ledger.Sound) (le : ledger.next ≤ next) (log : Log) :
    Sound { ledger with next, log } :=
  ⟨sound.unhosted, Revision.below_mono le sound.kept, fun number unused =>
    sound.free number (le.trans unused)⟩

/-! ## Entering a program -/

section

variable {numbered : List Stmt} (numbers : Numbers ledger.next next (Stmt.occurrencesAll numbered))

include numbers

/-- The numbers that a walk meets are the new ones. -/
lemma new_of_finding {finding : Finding} (mem : finding ∈ Stmt.findingsAll [] numbered) :
    ∃ number, finding.number = some number ∧ ledger.next ≤ number ∧ number < next := by
  have carried := List.mem_map_of_mem (f := Finding.number) mem
  rw [Stmt.numbers_findingsAll] at carried
  obtain ⟨occurrence, here, same⟩ := List.mem_map.mp carried
  obtain ⟨number, holds, range⟩ := numbers.within occurrence here
  exact ⟨number, by rw [← same, holds], range⟩

/-- The walk over a program changes nothing in the table below the counter. -/
lemma enterAll_old {number : Nat} (old : number < ledger.next) :
    ledger.table.enterAll (Stmt.findingsAll [] numbered) number = ledger.table number := by
  refine Table.enterAll_of_not_mem _ _ fun met => ?_
  obtain ⟨finding, mem, same⟩ := List.mem_map.mp met
  obtain ⟨other, carried, above, _⟩ := new_of_finding numbers mem
  rw [carried, Option.some.injEq] at same
  omega

/-- After the walk over a program the table is still empty from the new counter on. -/
lemma enterAll_free (sound : ledger.Sound) {number : Nat} (unused : next ≤ number) :
    ledger.table.enterAll (Stmt.findingsAll [] numbered) number = none := by
  rw [Table.enterAll_of_not_mem]
  · exact sound.free number (numbers.le.trans unused)
  · intro met
    obtain ⟨finding, mem, same⟩ := List.mem_map.mp met
    obtain ⟨other, carried, _, below⟩ := new_of_finding numbers mem
    rw [carried, Option.some.injEq] at same
    omega

/-- **After the walk over a program, reading the table at its occurrences gives the bound program.** -/
lemma revised_enterAll (sound : ledger.Sound) {tree : List Stmt}
    (unnumbered : Stmt.revisedAll .unnumbered numbered = tree) :
    Stmt.revisedAll (ledger.table.enterAll (Stmt.findingsAll [] numbered)).revision numbered =
      Program.bound tree := by
  have distinct : ((Stmt.findingsAll [] numbered).map Finding.number).Nodup := by
    rw [Stmt.numbers_findingsAll]
    exact numbers.distinct
  rw [← unnumbered, Program.bound]
  refine Stmt.revisedAll_of_findings rfl numbered [] (Table.enterAll_found _ _ distinct ?_)
  intro finding mem
  obtain ⟨number, carried, above, _⟩ := new_of_finding numbers mem
  exact ⟨number, carried, sound.free number above⟩

/-- The functions kept so far are not affected by the walk over a program. -/
lemma plain_enterAll (sound : ledger.Sound) :
    ledger.machine.revised (ledger.table.enterAll (Stmt.findingsAll [] numbered)).revision =
      ledger.machine.revised ledger.table.revision :=
  Revision.revised_of_agree sound.kept fun _ old => enterAll_old numbers old

end

variable {numbered : List Stmt}

/-- The mistakes of a numbered program are those of the program. -/
lemma mistakes_numbered {tree : List Stmt}
    (unnumbered : Stmt.revisedAll .unnumbered numbered = tree) :
    Program.mistakes numbered = Program.mistakes tree := by
  have places : ScopeReport.revised .unnumbered = id := rfl
  rw [← unnumbered, Program.mistakes, Program.mistakes, Stmt.mistakesAll_revised, places, List.map_id]

/-- Running a numbered program with its entries in the table is running the bound program, and the
counter stays above all numbers in use. -/
lemma interpret_plain (sound : ledger.Sound)
    (numbers : Numbers ledger.next next (Stmt.occurrencesAll numbered)) {tree : List Stmt}
    (unnumbered : Stmt.revisedAll .unnumbered numbered = tree) (allowance : Nat) :
    let table := ledger.table.enterAll (Stmt.findingsAll [] numbered)
    ledger.plain.machine.interpret allowance (Program.bound tree) =
        (Tabled.interpret table.read allowance numbered ledger.machine).map
          (fun told => (told.1, told.2.revised table.revision)) ∧
      ∀ fault machine log, Tabled.interpret table.read allowance numbered ledger.machine =
        some (fault, machine) → Sound ⟨machine, table, next, log⟩ := by
  intro table
  obtain ⟨same, host⟩ :=
    Tabled.interpret_revised id table.revision allowance numbered sound.unhosted
  rw [Tabled.interpret_untabled, revised_enterAll numbers sound unnumbered,
    plain_enterAll numbers sound] at same
  have free : ∀ number, next ≤ number → table number = none := fun _ =>
    enterAll_free numbers sound
  -- the run leaves alone what the run from a state below the counter leaves alone
  have below := (Tabled.interpret_revised table.read (.below next) allowance numbered
    sound.unhosted).1
  rw [Revision.below_mono numbers.le sound.kept, Revision.read_below free,
    Stmt.revisedAll_eq_self rfl numbered (Revision.keeps_below numbers)] at below
  have faults : (Option.map (Fault.revised table.revision) : Option Fault → Option Fault) = id := by
    funext fault
    rcases fault with _ | _ | _ <;> rfl
  refine ⟨?_, fun fault machine log found => ⟨(host _ found).unhosted sound.unhosted, ?_, free⟩⟩
  · rw [plain, same]
    simp only [faults, id]
    rfl
  · rw [found, Option.map_some, Option.some.injEq] at below
    exact (congrArg Prod.snd below).symm

/-- **A program is run as it is without the ledger**, whatever numbers its occurrences were given. -/
theorem run_plain (sound : ledger.Sound) {source : String}
    (numbers : Numbers ledger.next next (Stmt.occurrencesAll numbered))
    (unnumbered : Stmt.revisedAll .unnumbered numbered = (Program.read source).1) (allowance : Nat) :
    ledger.plain.run allowance source =
        (ledger.run allowance source numbered next).map (fun told => (told.1, told.2.plain)) ∧
      ∀ status after, ledger.run allowance source numbered next = some (status, after) →
        after.Sound := by
  rcases read : Program.read source with ⟨tree, _ | ⟨problem, problems⟩⟩
  · rw [read] at unnumbered
    have mistakes := mistakes_numbered unnumbered
    cases found : Program.mistakes tree with
    | nil =>
        obtain ⟨same, settled⟩ := interpret_plain sound numbers unnumbered allowance
        rw [plain] at same
        simp only [plain, run, Session.run, Session.runOf, Compilation.ofSource,
          Compilation.runnable?, read, mistakes, found, List.map_nil, List.isEmpty_nil, if_true, ne_eq,
          not_true, if_false, same]
        refine ⟨behindRun_plain .., fun status after ended => ?_⟩
        obtain ⟨-, fault, machine, log, ran, rfl⟩ := of_behindRun ended
        exact settled fault machine log ran
    | cons mistake others =>
        -- the program is refused, after its hops were entered
        simp only [plain, run, Session.run, Session.runOf, Compilation.ofSource,
          Compilation.runnable?, read, mistakes, found, List.map_cons, List.isEmpty_cons, ne_eq,
          not_true, if_false, reduceCtorEq, not_false_eq_true, if_true, Option.map_some,
          plain_enterAll numbers sound]
        refine ⟨rfl, fun status after h => ?_⟩
        cases h
        exact ⟨sound.unhosted, Revision.below_mono numbers.le sound.kept, fun _ =>
          enterAll_free numbers sound⟩
  · simp only [plain, run, Session.run, Session.runOf, Session.behindRun, Compilation.ofSource,
      Compilation.runnable?, read]
    refine ⟨rfl, fun status after h => ?_⟩
    cases h
    exact sound.skip numbers.le _

/-! ## Expressions -/

/-- An expression that no walk went over has no entries in the table: its names are global. -/
lemma revised_fresh (sound : ledger.Sound) {expression : Expr}
    (numbers : Numbers ledger.next next expression.occurrences) :
    expression.revised ledger.table.revision = expression.revised .unnumbered := by
  have empty : Revision.unnumbered.Keeps (expression.revised ledger.table.revision).occurrences := by
    rw [Expr.occurrences_revised]
    intro occurrence mem
    obtain ⟨old, here, rfl⟩ := List.mem_map.mp mem
    obtain ⟨number, carried, above, _⟩ := numbers.within old here
    simp [Occurrence.revised, Revision.unnumbered, Table.revision, Table.read, carried,
      sound.free number above]
  have same : Revision.unnumbered.comp ledger.table.revision = .unnumbered := rfl
  rw [← same, Expr.revised_comp, Expr.revised_eq_self rfl _ empty]

/-- **An expression is evaluated as it is without the ledger**, whatever numbers it was given. -/
theorem evaluate_plain (sound : ledger.Sound) {source : String} {numbered : Option Expr}
    (numbers : Numbers ledger.next next (Expr.occurrences? numbered))
    (unnumbered : numbered.map (Expr.revised .unnumbered) = (Program.readExpression source).1)
    (allowance : Nat) :
    ledger.plain.evaluate allowance source =
        (ledger.evaluate allowance source numbered next).map
          (fun told => (told.1.map told.2.plainValue, told.2.plain)) ∧
      ∀ result after, ledger.evaluate allowance source numbered next = some (result, after) →
        after.Sound := by
  rcases read : Program.readExpression source with ⟨tree, problems⟩
  rw [read] at unnumbered
  obtain rfl : numbered.map (Expr.revised .unnumbered) = tree := unnumbered
  cases numbered with
  | none =>
      simp only [plain, evaluate, Session.evaluate, Session.evaluateOf, Session.behindValue, read]
      refine ⟨rfl, fun status after h => ?_⟩
      cases h
      exact sound.skip numbers.le _
  | some expression =>
      cases problems with
      | cons problem others =>
          simp only [plain, evaluate, Session.evaluate, Session.evaluateOf, Session.behindValue, read]
          refine ⟨rfl, fun status after h => ?_⟩
          cases h
          exact sound.skip numbers.le _
      | nil =>
          obtain ⟨same, host⟩ := (Tabled.revised id ledger.table.revision allowance).evaluate
            expression ledger.machine sound.unhosted
          rw [Tabled.evaluate_untabled, revised_fresh sound numbers] at same
          have same : Action.evaluate allowance (expression.revised .unnumbered)
              (ledger.machine.revised ledger.table.revision) =
            ((Tabled.steps ledger.table.read).evaluate allowance expression ledger.machine).revised
              ledger.table.revision (Value.revised ledger.table.revision) := same
          have free : ∀ number, next ≤ number → ledger.table number = none := fun number unused =>
            sound.free number (numbers.le.trans unused)
          have below := ((Tabled.revised ledger.table.read (.below next) allowance).evaluate expression
            ledger.machine sound.unhosted).1
          rw [Revision.below_mono numbers.le sound.kept, Revision.read_below free,
            Expr.revised_eq_self rfl expression (Revision.keeps_below numbers)] at below
          simp only [plain, evaluate, Session.evaluate, Session.evaluateOf, Session.behindValue, read,
            Option.map_some, same]
          have host : ((Tabled.steps ledger.table.read).evaluate allowance expression
            ledger.machine).SameHost ledger.machine := host
          cases ran : (Tabled.steps ledger.table.read).evaluate allowance expression ledger.machine with
          | done value machine =>
              rw [ran] at below host
              refine ⟨rfl, fun status after h => ?_⟩
              cases h
              exact ⟨host.unhosted sound.unhosted, (Outcome.done.inj below).2.symm, free⟩
          | failed fault machine =>
              rw [ran] at below host
              refine ⟨by cases fault <;> rfl, fun status after h => ?_⟩
              cases h
              exact ⟨host.unhosted sound.unhosted, (Outcome.failed.inj below).2.symm, free⟩
          | exhausted => exact ⟨rfl, fun _ _ h => by cases h⟩

end Ledger

end LoxLang
