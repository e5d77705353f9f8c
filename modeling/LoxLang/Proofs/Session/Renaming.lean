import LoxLang.Proofs.Evaluation.RenamedRun
import LoxLang.Proofs.Session.Visits

/-!
# Renaming a local variable changes nothing

Scoping is lexical: which variable an occurrence stands for is settled by the source alone, so that a
local variable or a parameter may have any name that is not in use.

* `Machine.told` — what can be seen of a run: the fault, if there is one, and what has been written.
* **`Program.renamed_alike`** — after renaming a variable and the occurrences that binding leads to it,
  there is still no scope error, all hops are the same, and every run can be seen to be the same.
-/

namespace LoxLang

/-- What can be seen of a run: how it ended and what became of the sink. -/
def Machine.told (result : Option (Option Fault × Machine)) : Option (Option Fault × Sink) :=
  result.map fun (fault, machine) => (fault, machine.sink)

/-- A machine at the start resembles itself: nothing is declared in it but the clock. -/
lemma Machine.resembles_start (texts : Nat → List Stmt) (r : Renaming) (sink : Sink)
    (clock : Nat → Float) : (Machine.start sink clock).Resembles texts r [] [none]
      (Machine.start sink clock) := by
  refine ⟨rfl, rfl, ?_, rfl, rfl, rfl, fun _ => rfl, ?_⟩
  · intro native known
    exact List.mem_singleton.mp known
  · intro i site? name site _
    obtain rfl : site? = none := by
      cases i with
      | zero => exact (Option.some.inj site).symm
      | succ i => cases site
    rw [Renaming.named_none]
    cases held : (Machine.start sink clock).store.local? i name with
    | none => exact Option.Rel.none
    | some value =>
        refine Option.Rel.some (Value.resembles_self ?_)
        rcases Store.local?_define_cases held with rfl | old
        · exact fun _ _ h => by cases h
        · rw [show (Store.empty.root.2 : Store Value).local? i name = none from
            Store.local?_root_empty i name] at old
          cases old

lemma Machine.flush_told {machine machine' : Machine} (same : machine'.sink = machine.sink)
    (fault : Option Fault) :
    Machine.told (some (machine'.flush fault)) = Machine.told (some (machine.flush fault)) := by
  unfold Machine.flush
  rw [same]
  rcases machine.sink.flush with ⟨_ | error, sink⟩
  · rfl
  · rfl

namespace Program

variable {program : List Stmt} {r : Renaming}

lemma accepted (fresh : Stmt.FreshAll program) (sound : mistakes program = []) :
    Accepted fun _ => program := fun _ => ⟨fresh, sound⟩

/-- **Renaming a local variable changes nothing that can be seen.** -/
theorem renamed_alike {source : String} (reads : read source = (program, []))
    (sound : mistakes program = []) (declares : Declares (fun _ => program) r.site r.old)
    (new : r.new ∉ Stmt.namesAll program) :
    mistakes (renamed r program) = []
      ∧ (Stmt.occurrencesAll (bound (renamed r program))).map Occurrence.hops
        = (Stmt.occurrencesAll (bound program)).map Occurrence.hops
      ∧ ∀ (allowance : Nat) (sink : Sink) (clock : Nat → Float),
        Machine.told ((Machine.start sink clock).interpret allowance (bound (renamed r program)))
          = Machine.told ((Machine.start sink clock).interpret allowance (bound program)) := by
  have fresh : Stmt.FreshAll program := by
    have fresh := read_fresh source
    rwa [reads] at fresh
  have fine := accepted fresh sound
  have clean : r.Clean fun _ => program := Renaming.clean fine declares fun _ => new
  have stands : Stands (fun _ => program) [] [0] (.several 0 program) := Stands.program 0
  refine ⟨Stmt.mistakesAll_renamed clean program stands sound,
    Stmt.hopsAll_renamed clean program stands, ?_⟩
  intro allowance sink clock
  have ready : Ready (fun _ => program) [] ⟨[0], []⟩ [] (Machine.start sink clock) :=
    ⟨Fits.globals, Machine.placed_start _ sink clock⟩
  have beside : Beside (fun _ => program) r [] ⟨[0], []⟩ [] [none] (Machine.start sink clock)
      (Machine.start sink clock) :=
    ⟨Machine.resembles_start _ r sink clock, ⟨rfl, fun _ h => absurd h List.not_mem_nil, rfl⟩,
      fun _ h => absurd h List.not_mem_nil⟩
  -- the visits of the watched run find their scopes, so that the other run stays beside it
  have lexical := (Watch.lexical fine allowance).executeAll ready 0 program stands
  have alike := (Watch.renamed fine clean allowance).executeAll beside 0 program stands
    lexical.2.1
  have erases := (Watch.faithful allowance).executeAll (bound program) ⟨[0, 0], []⟩ []
    (Machine.start sink clock)
  change Outcome.Resembles _ _ _ _ _ _ _
    (Watch.steps.executeAll allowance (bound program) ⟨[0, 0], []⟩ [] (Machine.start sink clock)).outcome
    (Action.executeAll allowance (bound (renamed r program)) (Machine.start sink clock)) at alike
  rw [erases] at alike
  unfold Machine.interpret
  generalize Action.executeAll allowance (bound program) (Machine.start sink clock) = outcome
    at alike ⊢
  generalize Action.executeAll allowance (bound (renamed r program)) (Machine.start sink clock)
    = outcome' at alike ⊢
  cases alike with
  | done along _ => exact Machine.flush_told along.alike.sink_eq none
  | failed same => exact Machine.flush_told same _
  | exhausted => rfl

/-- The variable of a block that is read there may be renamed. -/
theorem renamed_alike_block :
    let source := "{ var a; print a; }"
    let name : Token := ⟨.identifier, "a", none, 1⟩
    let program : List Stmt := [.block [.variable name none, .print (.variable name none)]]
    let r : Renaming := ⟨[0, 0], "a", "b"⟩
    read source = (program, []) ∧ mistakes program = []
      ∧ Declares (fun _ => program) r.site r.old ∧ r.new ∉ Stmt.namesAll program
      ∧ (renamed r program).map Stmt.shown = ["(block (var b) (print b))"]
      ∧ ∀ (allowance : Nat) (sink : Sink) (clock : Nat → Float),
        Machine.told ((Machine.start sink clock).interpret allowance (bound (renamed r program)))
          = Machine.told ((Machine.start sink clock).interpret allowance (bound program)) := by
  intro source name program r
  have reads : read source = (program, []) := by
    simp only [source, program, name]
    cbv
  have sound : mistakes program = [] := rfl
  have declares : Declares (fun _ => program) [0, 0] name.lexeme :=
    .variable (.first (.block (.first (.program 0)))) rfl
  have new : r.new ∉ Stmt.namesAll program := by decide
  exact ⟨reads, sound, declares, new, by decide,
    (renamed_alike reads sound declares new).2.2⟩

end Program

end LoxLang
