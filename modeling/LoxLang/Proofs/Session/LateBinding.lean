import Mathlib
import LoxLang.Proofs.Evaluation.Joined
import LoxLang.Proofs.Evaluation.LexicalRun
import LoxLang.Proofs.Evaluation.Renumbered
import LoxLang.Proofs.Session.Joined
import LoxLang.Proofs.Session.Renaming

/-!
# The order of global functions

A name in the body of a global function is looked up when the function is called, so it does not matter
which of two functions is declared first.  After both declarations the same names stand for the same
functions; only the numbers of the two declaration events are exchanged, and the order in which the
globals are listed.

* `Machine.Numbered` — all functions were made by past events; `Machine.numbered_executeAll`, which
  holds wherever an accepted program has come to.
* `Action.executeAll_exchanged` — from there on, the two orders come to the same.
* `Action.seen_append` — what is seen of a run is settled behind the statements in front.
* `Session.seen` — what can be seen of a step.
* **`Session.run_exchanged`** — exchanging two declarations changes nothing that can be seen.
-/

namespace LoxLang

/-- Every function that the scopes hold was made by an event before the next one. -/
def Machine.Numbered (machine : Machine) : Prop :=
  ∀ i name event closure, machine.store.local? i name = some (.function event closure) →
    event < machine.events

/-- **So it is in every state that an accepted program comes to.** -/
lemma Machine.numbered_executeAll {program : List Stmt} (fresh : Stmt.FreshAll program)
    (sound : Program.mistakes program = []) (sink : Sink) (clock : Nat → Float) {n : Nat}
    {completion : Completion} {after : Machine}
    (ended : Action.executeAll n (Program.bound program) (.start sink clock) =
      .done completion after) : after.Numbered := by
  have ready : Ready (fun _ => program) [] ⟨[0], []⟩ [] (Machine.start sink clock) :=
    ⟨Fits.globals, Machine.placed_start _ sink clock⟩
  have kept := (Watch.lexical (Program.accepted fresh sound) n).executeAll ready 0 program
    (Stands.program 0)
  have same := (Watch.faithful n).executeAll (Program.bound program) ⟨[0, 0], []⟩ []
    (Machine.start sink clock)
  obtain ⟨placed, -⟩ := kept.of_done (same.trans ended)
  intro i name event closure held
  obtain ⟨declared, -, -, known, -⟩ := placed.placed.values held
  rw [← placed.placed.events]
  exact (List.getElem?_eq_some_iff.mp known).1

namespace Action

variable {first second : Token} {parameters others : List Token} {body other behind : List Stmt}
  {machine : Machine}

/-- The machine behind the declaration of a function. -/
def declared (name : Token) (parameters : List Token) (body : List Stmt) (machine : Machine) :
    Machine :=
  { machine with
    store := machine.store.define machine.current name.lexeme
      (.function machine.events ⟨name, parameters, body, machine.current⟩)
    events := machine.events + 1 }

/-- Behind two declarations the functions have exchanged the numbers of their events. -/
lemma declared_renumbered (different : first.lexeme ≠ second.lexeme) (numbered : machine.Numbered)
    (unhosted : machine.Unhosted) :
    (declared second others other (declared first parameters body machine)).Renumbered
      (.swap machine.events (machine.events + 1))
      (declared first parameters body (declared second others other machine)).store := by
  refine ⟨⟨?_, fun i => ?_, fun i name => ?_⟩, unhosted, fun event later => ?_⟩
  · simp [declared]
  · simp [declared]
  · simp only [declared, Store.local?_define, Store.size_define]
    by_cases isFirst : i = machine.current ∧ name = first.lexeme ∧
        machine.current < machine.store.scopes.size
    · have notSecond : ¬(i = machine.current ∧ name = second.lexeme ∧
          machine.current < machine.store.scopes.size) := fun isSecond =>
        different (isFirst.2.1.symm.trans isSecond.2.1)
      rw [if_pos isFirst, if_neg notSecond, if_pos isFirst, Option.map_some, Value.renumbered,
        Equiv.swap_apply_left]
    · rw [if_neg isFirst, if_neg isFirst]
      split
      · rw [Option.map_some, Value.renumbered, Equiv.swap_apply_right]
      · cases held : machine.store.local? i name with
        | none => rfl
        | some value =>
            rw [Option.map_some, Value.renumbered_eq_self]
            rintro event closure rfl
            have old := numbered i name event closure held
            exact Equiv.swap_apply_of_ne_of_ne (by omega) (by omega)
  · have later : machine.events + 2 ≤ event := later
    exact Equiv.swap_apply_of_ne_of_ne (by omega) (by omega)

/-- **Two declarations in either order**: what is behind them comes to the same. -/
lemma executeAll_exchanged (different : first.lexeme ≠ second.lexeme) (numbered : machine.Numbered)
    (unhosted : machine.Unhosted) : ∀ n,
    (executeAll n (.function first parameters body :: .function second others other :: behind)
        machine).Renumbered (.swap machine.events (machine.events + 1))
      (Completion.renumbered (.swap machine.events (machine.events + 1)))
      (executeAll n (.function second others other :: .function first parameters body :: behind)
        machine)
  | 0 => .exhausted
  | 1 => .exhausted
  | 2 => .exhausted
  | n + 3 => (Action.renumbered _ (n + 1)).executeAll behind _ _
      (declared_renumbered different numbered unhosted)

/-- What is seen of a run is settled by what is behind the statements in front, once they have ended. -/
lemma seen_append {γ : Type} (see : Outcome Completion → γ) {behind other : List Stmt} :
    ∀ (front : List Stmt) (machine : Machine) (n : Nat),
      (∀ m k mid, executeAll m front machine = .done .normal mid →
        see (executeAll k behind mid) = see (executeAll k other mid)) →
      see (executeAll n (front ++ behind) machine) = see (executeAll n (front ++ other) machine)
  | [], machine, n, same => same 1 n machine rfl
  | _ :: _, _, 0, _ => rfl
  | stmt :: front, machine, n + 1, same => by
      show see (Action.bind (execute n stmt) _ machine) = see (Action.bind (execute n stmt) _ machine)
      unfold Action.bind
      cases one : execute n stmt machine with
      | done completion after =>
          cases completion with
          | normal =>
              refine seen_append see front after n fun m k mid ended => same (max n m + 1) k mid ?_
              have longer : execute (max n m) stmt machine = .done .normal after := by
                rw [execute_of_le (le_max_left n m) stmt machine (by simp [one]), one]
              rw [executeAll_cons _ _ _ longer,
                executeAll_of_le (le_max_right n m) front after (by simp [ended]), ended]
          | returned value => rfl
      | failed fault after => rfl
      | exhausted => rfl

end Action

namespace Program

variable {source : String} {front behind : List Stmt} {first second : Token}
  {parameters others : List Token} {body other : List Stmt}

/-- Each global function is bound by itself. -/
lemma bound_functions : ∃ inner outer,
    bound (.function first parameters body :: .function second others other :: behind) =
        .function first parameters inner :: .function second others outer :: bound behind ∧
      bound (.function second others other :: .function first parameters body :: behind) =
        .function second others outer :: .function first parameters inner :: bound behind := by
  simp only [bound, Stmt.boundAll, Frames.behind_globals, Stmt.bound]
  exact ⟨_, _, rfl, rfl⟩

end Program

/-- A tree on its way to its run. -/
def Compilation.ofTree (tree : List Stmt) : Compilation :=
  ⟨tree, some (Program.bound tree), (Program.mistakes tree).map ScopeReport.diagnostic⟩

namespace Session

/-- What can be seen of a step: how it ended, what became of the sink and what was reported. -/
def seen (told : Status × Session) : Status × Sink × Log :=
  (told.1, told.2.machine.sink, told.2.log)

/-- Two orders of declarations are seen to end in the same way. -/
lemma seen_renumbered {σ : Equiv.Perm Nat} {outcome other : Outcome Completion}
    (same : outcome.Renumbered σ (Completion.renumbered σ) other) (log : Log) :
    (concluded log other).map seen = (concluded log outcome).map seen := by
  have flushed (machine : Machine) (store : Store Value) (fault : Option Fault) :
      (behindRun log (some (({ machine with store } : Machine).flush fault))).map seen =
        (behindRun log (some (machine.flush fault))).map seen := by
    simp only [Machine.flush]
    rcases machine.sink.flush with ⟨_ | error, sink⟩
    · cases fault <;> rfl
    · rfl
  cases same with
  | done _ => exact flushed _ _ none
  | failed _ => exact flushed _ _ (some _)
  | exhausted => rfl

variable {source : String} {front behind : List Stmt} {first second : Token}
  {parameters others : List Token} {body other : List Stmt}

open Program in
/-- **The order of global functions does not matter.**  In an accepted program two function declarations
that stand next to each other outside of all blocks, with different names, may be exchanged.  Nothing is
wrong with the program then either, and in a fresh session it is seen to run alike: it ends in the same
way, the same has been written and the same is kept back, and if an error stops it, then the same error
on the same line. -/
theorem run_exchanged
    (accepts : Accepts source (front ++
      .function first parameters body :: .function second others other :: behind))
    (different : first.lexeme ≠ second.lexeme) :
    let exchanged := front ++
      .function second others other :: .function first parameters body :: behind
    (Compilation.ofTree exchanged).problems = [] ∧
      ∀ (allowance : Nat) (sink : Sink) (clock : Nat → Float),
        ((start sink clock).runOf allowance (.ofTree exchanged)).map seen =
          ((start sink clock).run allowance source).map seen := by
  intro exchanged
  have fresh : Stmt.FreshAll front := by
    have whole := read_fresh source
    rw [accepts.read, Stmt.freshAll_iff] at whole
    exact Stmt.freshAll_iff.mpr fun stmt mem => whole stmt (List.mem_append_left _ mem)
  obtain ⟨soundFront, soundBehind⟩ := List.append_eq_nil_iff.mp
    ((mistakes_joined _ _).symm.trans accepts.mistakes)
  have sound : mistakes exchanged = [] := by
    rw [mistakes_joined, soundFront, List.nil_append]
    simp only [mistakes, Stmt.mistakesAll, Frames.behind_globals, List.append_eq_nil_iff]
      at soundBehind ⊢
    exact ⟨soundBehind.2.1, soundBehind.1, soundBehind.2.2⟩
  refine ⟨List.map_eq_nil_iff.mpr sound, fun n sink clock => ?_⟩
  obtain ⟨inner, outer, one, two⟩ :=
    @bound_functions behind first second parameters others body other
  rw [run_of_accepts accepts, Compilation.ofTree, sound, List.map_nil, runOf_bound, bound_joined,
    bound_joined, one, two]
  refine Action.seen_append (fun outcome => (concluded _ outcome).map seen) _ _ _
    fun m k mid ended => ?_
  have unhosted : mid.Unhosted := by
    have host := Action.executeAll_sameHost (Machine.unhosted_start sink clock) m (bound front)
    have ended : Action.executeAll m (bound front) (.start sink clock) = _ := ended
    rw [ended] at host
    exact host.unhosted (Machine.unhosted_start sink clock)
  exact seen_renumbered (Action.executeAll_exchanged different
    (Machine.numbered_executeAll fresh soundFront sink clock ended) unhosted k) _

/-- Whether a program starts with two functions of different names. -/
def startsWithFunctions : List Stmt → Bool
  | .function first _ _ :: .function second _ _ :: _ => first.lexeme != second.lexeme
  | _ => false

lemma exists_functions {tree : List Stmt} (starts : startsWithFunctions tree = true) :
    ∃ first parameters body second others other behind,
      tree = .function first parameters body :: .function second others other :: behind ∧
      first.lexeme ≠ second.lexeme := by
  unfold startsWithFunctions at starts
  split at starts
  · exact ⟨_, _, _, _, _, _, _, rfl, bne_iff_ne.mp starts⟩
  · cases starts

open Program in
/-- Two functions that call each other: either may be declared first. -/
theorem run_exchanged_mutual :
    let source := "fun even(n) \x7b return n == 0 or odd(n - 1); \x7d " ++
      "fun odd(n) \x7b return n != 0 and even(n - 1); \x7d print even(1);"
    let session := start (.direct .empty) fun _ => 0
    ∃ first parameters body second others other behind,
      read source = (.function first parameters body :: .function second others other :: behind, []) ∧
      first.lexeme ≠ second.lexeme ∧
      (session.run 40 source).map (fun told => (told.1, told.2.takeOutput.1)) =
        some (.completed, "false\n") ∧
      ((session.runOf 40 (.ofTree
        (.function second others other :: .function first parameters body :: behind))).map seen) =
        (session.run 40 source).map seen := by
  intro source session
  have sound : ((read source).2.isEmpty && (mistakes (read source).1).isEmpty &&
      startsWithFunctions (read source).1) = true := by
    simp only [source]
    decide +kernel
  have printed : (session.run 40 source).map (fun told => (told.1, told.2.takeOutput.1)) =
      some (.completed, "false\n") := by
    simp only [source, session]
    decide +kernel
  clear_value source
  rw [Bool.and_eq_true, Bool.and_eq_true, List.isEmpty_iff, List.isEmpty_iff] at sound
  obtain ⟨⟨text, names⟩, shape⟩ := sound
  rcases found : read source with ⟨tree, problems⟩
  rw [found] at text names shape
  obtain rfl : problems = [] := text
  obtain ⟨first, parameters, body, second, others, other, behind, same, different⟩ :=
    exists_functions shape
  have same : tree = _ := same
  subst same
  have accepts : Accepts source ([] ++ .function first parameters body ::
      .function second others other :: behind) := ⟨found, names⟩
  obtain ⟨-, alike⟩ := run_exchanged accepts different
  exact ⟨first, parameters, body, second, others, other, behind, rfl, different, printed,
    alike 40 (.direct .empty) fun _ => 0⟩

end Session

end LoxLang
