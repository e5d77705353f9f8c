import Mathlib
import LoxLang.Binding
import LoxLang.Proofs.Evaluation.Allowance

/-!
# Running one program behind another

A program without a return outside of functions runs to its end unless it fails.  When it has, the
statements behind it run as they would from where it left the machine.

* `Stmt.Returnless` — no return stands outside of functions; `Stmt.returnless_of_mistakes`, a program
  without mistakes is such a one.
* **`Action.normal`** — such statements end normally.
* **`Action.executeAll_append`** — statements behind statements that have ended.
-/

namespace LoxLang

mutual

/-- No return stands outside of functions. -/
def Stmt.Returnless : Stmt → Prop
  | .return_ _ _ => False
  | .block body => Stmt.ReturnlessAll body
  | .branch _ consequent alternative => consequent.Returnless ∧ Stmt.Returnless? alternative
  | .loop _ body => body.Returnless
  | .expression _ => True
  | .print _ => True
  | .variable _ _ => True
  | .function _ _ _ => True

/-- No return stands outside of functions in the statements. -/
def Stmt.ReturnlessAll : List Stmt → Prop
  | [] => True
  | first :: others => first.Returnless ∧ Stmt.ReturnlessAll others

/-- No return stands outside of functions in the statement, if there is one. -/
def Stmt.Returnless? : Option Stmt → Prop
  | none => True
  | some stmt => stmt.Returnless

end

mutual

/-- **A return outside of functions is a mistake.** -/
theorem Stmt.returnless_of_mistakes (inside : Frames) : ∀ (stmt : Stmt) (frames : Frames),
    stmt.mistakes frames false = [] → (stmt.bound inside).Returnless
  | .return_ _ _, _, sound => by simp [Stmt.mistakes] at sound
  | .block body, frames, sound => Stmt.returnlessAll_of_mistakes ([] :: inside) body _ sound
  | .branch _ consequent alternative, frames, sound => by
      simp only [Stmt.mistakes, List.append_eq_nil_iff] at sound
      exact ⟨Stmt.returnless_of_mistakes inside consequent _ sound.1.2,
        Stmt.returnless?_of_mistakes _ alternative _ sound.2⟩
  | .loop _ body, frames, sound => by
      simp only [Stmt.mistakes, List.append_eq_nil_iff] at sound
      exact Stmt.returnless_of_mistakes inside body _ sound.2
  | .expression _, _, _ => trivial
  | .print _, _, _ => trivial
  | .variable _ _, _, _ => trivial
  | .function _ _ _, _, _ => trivial

lemma Stmt.returnlessAll_of_mistakes (inside : Frames) : ∀ (stmts : List Stmt) (frames : Frames),
    Stmt.mistakesAll frames false stmts = [] →
      Stmt.ReturnlessAll (Stmt.boundAll inside stmts)
  | [], _, _ => trivial
  | stmt :: others, frames, sound => by
      simp only [Stmt.mistakesAll, List.append_eq_nil_iff] at sound
      exact ⟨Stmt.returnless_of_mistakes inside stmt _ sound.1,
        Stmt.returnlessAll_of_mistakes _ others _ sound.2⟩

lemma Stmt.returnless?_of_mistakes (inside : Frames) : ∀ (stmt : Option Stmt) (frames : Frames),
    Stmt.mistakes? frames false stmt = [] → Stmt.Returnless? (Stmt.bound? inside stmt)
  | none, _, _ => trivial
  | some stmt, frames, sound => Stmt.returnless_of_mistakes inside stmt frames sound

end

namespace Action

/-! ## Ending normally -/

/-- The step does not return from a function. -/
def EndsNormally (step : Action Completion) : Prop :=
  ∀ machine value after, step machine ≠ .done (.returned value) after

namespace EndsNormally

variable {α : Type}

lemma bind {step : Action α} {next : α → Action Completion}
    (second : ∀ value, EndsNormally (next value)) : EndsNormally (step >>= next) := by
  intro machine value after
  change Action.bind step next machine ≠ _
  unfold Action.bind
  cases step machine with
  | done found machine => exact second found machine value after
  | failed fault machine => exact nofun
  | exhausted => exact nofun

/-- What comes after a return does not matter where there is none. -/
lemma bind_completion {step : Action Completion} {next : Completion → Action Completion}
    (first : EndsNormally step) (second : EndsNormally (next .normal)) :
    EndsNormally (step >>= next) := by
  intro machine value after
  change Action.bind step next machine ≠ _
  unfold Action.bind
  cases found : step machine with
  | done completion machine' =>
      cases completion with
      | normal => exact second machine' value after
      | returned other => exact absurd found (first machine other machine')
  | failed fault machine => exact nofun
  | exhausted => exact nofun

lemma normal : EndsNormally (pure .normal) := fun _ _ _ => nofun

lemma within {step : Action Completion} (inner : EndsNormally step) (scope : Nat) :
    EndsNormally (Action.within scope step) := by
  intro machine value after
  simp only [Action.within]
  cases found : step { machine with current := scope } with
  | done completion machine' =>
      cases completion with
      | normal => exact fun same => by cases same
      | returned other => exact absurd found (inner _ other machine')
  | failed fault machine => exact fun same => by cases same
  | exhausted => exact fun same => by cases same

end EndsNormally

/-- **Statements without a return outside of functions end normally.** -/
theorem normal (n : Nat) : (∀ stmt : Stmt, stmt.Returnless → EndsNormally (execute n stmt)) ∧
    ∀ stmts, Stmt.ReturnlessAll stmts → EndsNormally (executeAll n stmts) := by
  induction n with
  | zero => exact ⟨fun _ _ _ _ _ => nofun, fun _ _ _ _ _ => nofun⟩
  | succ n ih =>
      obtain ⟨one, all⟩ := ih
      constructor
      · intro stmt returnless
        cases stmt with
        | return_ keyword value => exact returnless.elim
        | expression value => exact .bind fun _ => .normal
        | print value => exact .bind fun _ => .bind fun _ => .normal
        | «variable» name initializer => exact .bind fun _ => .bind fun _ => .normal
        | function name parameters body => exact .bind fun _ => .normal
        | block body => exact .bind fun _ => .bind fun scope => (all body returnless).within scope
        | branch condition consequent alternative =>
            refine .bind fun value => ?_
            split
            · exact one consequent returnless.1
            · cases alternative with
              | none => exact .normal
              | some alternative => exact one alternative returnless.2
        | loop condition body =>
            refine .bind fun value => ?_
            split
            · exact .bind_completion (one body returnless) (one (.loop condition body) returnless)
            · exact .normal
      · intro stmts returnless
        cases stmts with
        | nil => exact .normal
        | cons first others =>
            exact .bind_completion (one first returnless.1) (all others returnless.2)

/-! ## Statements behind statements -/

/-- The first of several statements, and those behind it. -/
lemma executeAll_cons (n : Nat) (first : Stmt) (others : List Stmt) {machine after : Machine}
    (ended : execute n first machine = .done .normal after) :
    executeAll (n + 1) (first :: others) machine = executeAll n others after := by
  show Action.bind (execute n first) _ machine = _
  rw [Action.bind, ended]

lemma exists_execute_of_executeAll {n : Nat} {first : Stmt} {others : List Stmt}
    {machine last : Machine}
    (ended : executeAll (n + 1) (first :: others) machine = .done .normal last) :
    ∃ after, execute n first machine = .done .normal after ∧
      executeAll n others after = .done .normal last := by
  change Action.bind (execute n first) _ machine = _ at ended
  unfold Action.bind at ended
  cases found : execute n first machine with
  | done completion after =>
      rw [found] at ended
      cases completion with
      | normal => exact ⟨after, rfl, ended⟩
      | returned value => cases ended
  | failed fault after => rw [found] at ended; cases ended
  | exhausted => rw [found] at ended; cases ended

variable {n : Nat} {stmts : List Stmt} {machine mid : Machine}

lemma executeAll_append_of_second (ended : executeAll n stmts machine = .done .normal mid)
    (others : List Stmt) {m : Nat} (given : executeAll m others mid ≠ .exhausted) :
    executeAll (n + m) (stmts ++ others) machine = executeAll m others mid := by
  induction stmts generalizing n machine with
  | nil =>
      cases n with
      | zero => cases ended
      | succ n =>
          cases ended
          exact executeAll_of_le (Nat.le_add_left m (n + 1)) others _ given
  | cons first stmts ih =>
      cases n with
      | zero => cases ended
      | succ n =>
          obtain ⟨after, one, rest⟩ := exists_execute_of_executeAll ended
          have longer : execute (n + m) first machine = .done .normal after := by
            rw [execute_of_le (Nat.le_add_right n m) first machine (by simp [one]), one]
          rw [Nat.succ_add, List.cons_append, executeAll_cons _ _ _ longer]
          exact ih rest

lemma exists_second_of_append (ended : executeAll n stmts machine = .done .normal mid)
    (others : List Stmt) {m : Nat} (given : executeAll m (stmts ++ others) machine ≠ .exhausted) :
    ∃ k, executeAll k others mid = executeAll m (stmts ++ others) machine := by
  induction stmts generalizing n m machine with
  | nil =>
      cases n with
      | zero => cases ended
      | succ n => cases ended; exact ⟨m, rfl⟩
  | cons first stmts ih =>
      cases n with
      | zero => cases ended
      | succ n =>
      cases m with
      | zero => exact absurd rfl given
      | succ m =>
          obtain ⟨after, one, rest⟩ := exists_execute_of_executeAll ended
          have started : execute m first machine ≠ .exhausted := by
            intro gives
            refine given ?_
            show Action.bind (execute m first) _ machine = _
            rw [Action.bind, gives]
          have same : execute m first machine = .done .normal after := by
            have other : execute n first machine ≠ .exhausted := by rw [one]; exact nofun
            rw [execute_agree started other, one]
          rw [List.cons_append, executeAll_cons _ _ _ same] at given ⊢
          exact ih rest given

/-- **Statements behind statements that have ended** do what they do from where those ended. -/
theorem executeAll_append (ended : executeAll n stmts machine = .done .normal mid)
    (others : List Stmt) {outcome : Outcome Completion} (given : outcome ≠ .exhausted) :
    (∃ m, executeAll m (stmts ++ others) machine = outcome) ↔
      ∃ m, executeAll m others mid = outcome := by
  constructor
  · rintro ⟨m, rfl⟩
    exact exists_second_of_append ended others given
  · rintro ⟨m, rfl⟩
    exact ⟨n + m, executeAll_append_of_second ended others given⟩

end Action

end LoxLang
