import Mathlib
import LoxLang.Proofs.Session.Ledger

/-!
# Where the numbers in a ledger come from

A session that keeps a ledger meets numbers in three places: in the trees that it reads, in the functions
that it keeps from them, and in its table.  The functions and the table have no numbers but those of the
trees.  A run makes no new ones, as it does the same after every other number has been taken away.

* `Revision.among` — takes all numbers away but some, and gives one where there is none.
* `Ledger.Confined` — the functions and the table have some numbers only.
* **`Ledger.Confined.run`**, **`Ledger.Confined.evaluate`** — a step adds those of its tree at most.
-/

namespace LoxLang

/-! ## Some numbers only -/

namespace Revision

/-- Takes all numbers away but some, and gives an occurrence without one the number `other`. -/
def among (numbers : List (Option Nat)) (other : Nat) : Revision :=
  ⟨id, fun number => if number ∈ numbers then number else
    match number with
    | none => some other
    | some _ => none⟩

variable {numbers : List (Option Nat)} {other : Nat}

/-- What is left alone is one of the numbers. -/
lemma hops_among {number : Option Nat} :
    (among numbers other).hops number = number ↔ number ∈ numbers := by
  by_cases mem : number ∈ numbers
  · simp [among, mem]
  · cases number <;> simp [among, mem]

/-- A table that says nothing of another number reads the same. -/
lemma read_among {table : Table} (free : ∀ number, some number ∉ numbers → table number = none)
    (unused : table other = none) : table.read ∘ (among numbers other).hops = table.read := by
  funext number
  by_cases mem : number ∈ numbers
  · simp [among, mem]
  · cases number with
    | none => simp [among, mem, Table.read, unused]
    | some number => simp [among, mem, Table.read, free number mem]

end Revision

/-- **All numbers that are kept are some of these**: those in the functions, and those in the table.
What an occurrence without a number would be given does not matter, as there is none. -/
structure Ledger.Confined (numbers : List (Option Nat)) (ledger : Ledger) : Prop where
  kept : ∀ other, ledger.machine.revised (.among numbers other) = ledger.machine
  free : ∀ number, some number ∉ numbers → ledger.table number = none

namespace Ledger.Confined

variable {ledger after : Ledger} {numbers more : List (Option Nat)} {next allowance : Nat}
  {source : String}

/-- The occurrences in a function that is kept have these numbers. -/
lemma function (confined : ledger.Confined numbers) {i event : Nat} {name : String} {closure : Closure}
    (held : ledger.machine.store.local? i name = some (.function event closure))
    {occurrence : Occurrence} (mem : occurrence ∈ Stmt.occurrencesAll closure.body) :
    occurrence.hops ∈ numbers := by
  have same : (ledger.machine.store.map (Value.revised (.among numbers 0))).local? i name =
      ledger.machine.store.local? i name := by
    conv_rhs => rw [← confined.kept 0]
    rfl
  rw [Store.local?_map, held] at same
  have body : Stmt.revisedAll (.among numbers 0) closure.body = closure.body :=
    congrArg Closure.body (Value.function.inj (Option.some.inj same)).2
  exact Revision.hops_among.mp (Stmt.keeps_of_revisedAll body occurrence mem)

lemma kept_mono {machine : Machine} (subset : numbers ⊆ more) {other : Nat}
    (kept : machine.revised (.among numbers other) = machine) (other' : Nat) :
    machine.revised (.among more other') = machine :=
  Machine.revised_eq_self_imp rfl (fun _ fixed =>
    Revision.hops_among.mpr (subset (Revision.hops_among.mp fixed))) kept

lemma start (sink : Sink) (clock : Nat → Float) : (Ledger.start sink clock).Confined [] :=
  ⟨fun _ => Machine.revised_start _ sink clock, fun _ _ => rfl⟩

variable (confined : ledger.Confined numbers) (sound : ledger.Sound)

include confined

/-- A step that only takes numbers and tells of mistakes. -/
lemma skip (more : List (Option Nat)) (next : Nat) (log : Log) :
    Confined (numbers ++ more) { ledger with next, log } :=
  ⟨kept_mono (List.subset_append_left _ _) (confined.kept 0), fun number unknown =>
    confined.free number fun mem => unknown (List.mem_append_left _ mem)⟩

/-- The walk over a program enters the numbers of its tree at most. -/
lemma enterAll_free (numbered : List Stmt) (number : Nat)
    (unknown : some number ∉ numbers ++ (Stmt.occurrencesAll numbered).map Occurrence.hops) :
    ledger.table.enterAll (Stmt.findingsAll [] numbered) number = none := by
  rw [List.mem_append, not_or] at unknown
  rw [Table.enterAll_of_not_mem]
  · exact confined.free number unknown.1
  · rw [Stmt.numbers_findingsAll]
    exact unknown.2

include sound

/-- A run keeps functions of its program and functions that were kept before. -/
lemma kept_interpret {numbered : List Stmt} {table : Table} {fault : Option Fault} {machine : Machine}
    (free : ∀ number, some number ∉ numbers ++ (Stmt.occurrencesAll numbered).map Occurrence.hops →
      table number = none) (unused : table next = none)
    (ran : Tabled.interpret table.read allowance numbered ledger.machine = some (fault, machine))
    (other : Nat) : machine.revised
      (.among (numbers ++ (Stmt.occurrencesAll numbered).map Occurrence.hops) other) = machine := by
  have same := (Tabled.interpret_revised table.read
    (.among (numbers ++ (Stmt.occurrencesAll numbered).map Occurrence.hops) next) allowance numbered
    sound.unhosted).1
  rw [kept_mono (List.subset_append_left _ _) (confined.kept 0), Revision.read_among free unused,
    Stmt.revisedAll_eq_self rfl numbered fun occurrence mem => Revision.hops_among.mpr
      (List.mem_append_right _ (List.mem_map_of_mem mem)), ran, Option.map_some] at same
  exact kept_mono (List.Subset.refl _) (congrArg Prod.snd (Option.some.inj same)).symm other

/-- **A program adds its own numbers at most.** -/
theorem run {numbered : List Stmt} {status : Status}
    (occurrences : Numbers ledger.next next (Stmt.occurrencesAll numbered))
    (ran : ledger.run allowance source numbered next = some (status, after)) :
    after.Confined (numbers ++ (Stmt.occurrencesAll numbered).map Occurrence.hops) := by
  have free := confined.enterAll_free numbered
  have unused := Ledger.enterAll_free occurrences sound (le_refl next)
  simp only [Ledger.run] at ran
  split_ifs at ran with problems mistakes
  · cases ran
    exact confined.skip _ next _
  · cases ran
    exact ⟨kept_mono (List.subset_append_left _ _) (confined.kept 0), free⟩
  · obtain ⟨-, fault, machine, log, found, rfl⟩ := Ledger.of_behindRun ran
    exact ⟨confined.kept_interpret sound free unused found, free⟩

/-- **An expression adds its own numbers at most.** -/
theorem evaluate {numbered : Option Expr} {result : Except Status Value}
    (occurrences : Numbers ledger.next next (Expr.occurrences? numbered))
    (ran : ledger.evaluate allowance source numbered next = some (result, after)) :
    after.Confined (numbers ++ (Expr.occurrences? numbered).map Occurrence.hops) := by
  have subset := List.subset_append_left numbers ((Expr.occurrences? numbered).map Occurrence.hops)
  have free (number : Nat)
      (unknown : some number ∉ numbers ++ (Expr.occurrences? numbered).map Occurrence.hops) :
      ledger.table number = none := confined.free number fun mem => unknown (subset mem)
  simp only [Ledger.evaluate] at ran
  split at ran
  · next expression problems =>
    let among := Revision.among
      (numbers ++ (Expr.occurrences? (some expression)).map Occurrence.hops) next
    have own : among.Keeps expression.occurrences := fun occurrence mem =>
      Revision.hops_among.mpr (List.mem_append_right _ (List.mem_map_of_mem mem))
    have same := ((Tabled.revised ledger.table.read among allowance).evaluate expression
      ledger.machine sound.unhosted).1
    rw [kept_mono subset (confined.kept 0), Revision.read_among free (sound.free next occurrences.le),
      Expr.revised_eq_self rfl expression own] at same
    obtain ⟨-, machine, log, rfl, ⟨value, found⟩ | ⟨fault, found⟩⟩ := Ledger.of_behindValue ran
    · rw [found] at same
      exact ⟨kept_mono (List.Subset.refl _) (Outcome.done.inj same).2.symm, free⟩
    · rw [found] at same
      exact ⟨kept_mono (List.Subset.refl _) (Outcome.failed.inj same).2.symm, free⟩
  · cases ran
    exact confined.skip _ next _

end Ledger.Confined

end LoxLang
