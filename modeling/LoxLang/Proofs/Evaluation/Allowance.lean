import Mathlib
import LoxLang.Evaluation.Run

/-!
# A larger allowance changes nothing else

The allowance of a run only says when to give up.  A run that does not give up has the same outcome
with every larger allowance, so all runs of a program that do not give up agree.

* `Action.Prolongs` — a step that does the same as another one, except where that one gives up.
* **`Action.prolongs`** — the functions of a run with one more step allowed.
* **`Action.executeAll_of_le`**, `Action.execute_agree` — what follows for the statements of a program
  and for two runs of one statement.
-/

namespace LoxLang

namespace Action

variable {α β : Type}

/-- The step does the same as `shorter`, except where `shorter` gives up. -/
def Prolongs (step shorter : Action α) : Prop :=
  ∀ machine, shorter machine ≠ .exhausted → step machine = shorter machine

namespace Prolongs

lemma refl (step : Action α) : Prolongs step step := fun _ _ => rfl

lemma of_exhausted (step : Action α) : Prolongs step exhausted := fun _ h => absurd rfl h

lemma bind {step shorter : Action α} {next shorterNext : α → Action β}
    (first : Prolongs step shorter) (second : ∀ value, Prolongs (next value) (shorterNext value)) :
    Prolongs (step >>= next) (shorter >>= shorterNext) := by
  intro machine given
  change Action.bind shorter shorterNext machine ≠ .exhausted at given
  show Action.bind step next machine = Action.bind shorter shorterNext machine
  unfold Action.bind at given ⊢
  cases found : shorter machine with
  | done value after =>
      rw [found] at given
      rw [first machine (by simp [found]), found]
      exact second value after given
  | failed fault after => rw [first machine (by simp [found]), found]
  | exhausted => rw [found] at given; exact absurd rfl given

lemma within {step shorter : Action α} (inner : Prolongs step shorter) (scope : Nat) :
    Prolongs (Action.within scope step) (Action.within scope shorter) := by
  intro machine given
  simp only [Action.within] at given ⊢
  rw [inner]
  intro gives
  rw [gives] at given
  exact given rfl

end Prolongs

/-- With `n + 1` steps allowed a run does what it does with `n`, except where it gives up. -/
structure Prolonged (n : Nat) : Prop where
  evaluate : ∀ value, Prolongs (evaluate (n + 1) value) (evaluate n value)
  evaluateAll : ∀ values, Prolongs (evaluateAll (n + 1) values) (evaluateAll n values)
  call : ∀ callee paren arguments,
    Prolongs (call (n + 1) callee paren arguments) (call n callee paren arguments)
  execute : ∀ stmt, Prolongs (execute (n + 1) stmt) (execute n stmt)
  evaluateOr : ∀ value, Prolongs (evaluateOr (n + 1) value) (evaluateOr n value)
  executeAll : ∀ stmts, Prolongs (executeAll (n + 1) stmts) (executeAll n stmts)

namespace Prolonged

variable {n : Nat}

lemma evaluate_succ (ih : Prolonged n) (value : Expr) :
    Prolongs (Action.evaluate (n + 2) value) (Action.evaluate (n + 1) value) := by
  cases value with
  | literal value => exact .refl _
  | group inner => exact ih.evaluate inner
  | unary operator operand => exact (ih.evaluate operand).bind fun _ => .refl _
  | binary left operator right =>
      exact (ih.evaluate left).bind fun _ => (ih.evaluate right).bind fun _ => .refl _
  | logical left operator right =>
      refine (ih.evaluate left).bind fun value => ?_
      split
      · exact .refl _
      · exact ih.evaluate right
  | «variable» name hops => exact .refl _
  | assign name value hops => exact (ih.evaluate value).bind fun _ => .refl _
  | call callee paren arguments =>
      exact (ih.evaluate callee).bind fun _ => (ih.evaluateAll arguments).bind fun _ => ih.call _ _ _

lemma evaluateAll_succ (ih : Prolonged n) (values : List Expr) :
    Prolongs (Action.evaluateAll (n + 2) values) (Action.evaluateAll (n + 1) values) := by
  cases values with
  | nil => exact .refl _
  | cons first others =>
      exact (ih.evaluate first).bind fun _ => (ih.evaluateAll others).bind fun _ => .refl _

lemma call_succ (ih : Prolonged n) (paren : Token) (arguments : List Value) : ∀ callee,
    Prolongs (Action.call (n + 2) callee paren arguments)
      (Action.call (n + 1) callee paren arguments)
  | .function _ closure => by
      simp only [Action.call]
      split
      · refine (Prolongs.refl _).bind fun scope => (Prolongs.refl _).bind fun _ => ?_
        refine ((ih.executeAll closure.body).within scope).bind fun completion => ?_
        cases completion with
        | normal => exact .refl _
        | returned value => exact .refl _
      · exact .refl _
  | .native _ _ => .refl _
  | .nil => .refl _
  | .bool _ => .refl _
  | .number _ => .refl _
  | .text _ => .refl _

lemma execute_succ (ih : Prolonged n) (stmt : Stmt) :
    Prolongs (Action.execute (n + 2) stmt) (Action.execute (n + 1) stmt) := by
  cases stmt with
  | expression value => exact (ih.evaluate value).bind fun _ => .refl _
  | print value => exact (ih.evaluate value).bind fun _ => .refl _
  | «variable» name initializer => exact (ih.evaluateOr initializer).bind fun _ => .refl _
  | block body =>
      exact (Prolongs.refl _).bind fun _ => (Prolongs.refl _).bind fun scope =>
        (ih.executeAll body).within scope
  | branch condition consequent alternative =>
      refine (ih.evaluate condition).bind fun value => ?_
      split
      · exact ih.execute consequent
      · cases alternative with
        | none => exact .refl _
        | some alternative => exact ih.execute alternative
  | loop condition body =>
      refine (ih.evaluate condition).bind fun value => ?_
      split
      · refine (ih.execute body).bind fun completion => ?_
        cases completion with
        | normal => exact ih.execute (.loop condition body)
        | returned value => exact .refl _
      · exact .refl _
  | function name parameters body => exact .refl _
  | return_ keyword value => exact (ih.evaluateOr value).bind fun _ => .refl _

lemma evaluateOr_succ (ih : Prolonged n) : ∀ value,
    Prolongs (Action.evaluateOr (n + 2) value) (Action.evaluateOr (n + 1) value)
  | none => .refl _
  | some value => ih.evaluate value

lemma executeAll_succ (ih : Prolonged n) (stmts : List Stmt) :
    Prolongs (Action.executeAll (n + 2) stmts) (Action.executeAll (n + 1) stmts) := by
  cases stmts with
  | nil => exact .refl _
  | cons first others =>
      refine (ih.execute first).bind fun completion => ?_
      cases completion with
      | normal => exact ih.executeAll others
      | returned value => exact .refl _

end Prolonged

/-- **One more step allowed changes nothing but where a run gives up.** -/
theorem prolongs (n : Nat) : Prolonged n := by
  induction n with
  | zero => exact ⟨fun _ => .of_exhausted _, fun _ => .of_exhausted _, fun _ _ _ => .of_exhausted _,
      fun _ => .of_exhausted _, fun _ => .of_exhausted _, fun _ => .of_exhausted _⟩
  | succ n ih => exact ⟨ih.evaluate_succ, ih.evaluateAll_succ, fun callee paren arguments =>
      ih.call_succ paren arguments callee, ih.execute_succ, ih.evaluateOr_succ, ih.executeAll_succ⟩

/-! ## Any larger allowance -/

lemma prolongs_of_le {steps : Nat → Action α} (succ : ∀ n, Prolongs (steps (n + 1)) (steps n))
    {n larger : Nat} (le : n ≤ larger) : Prolongs (steps larger) (steps n) := by
  induction le with
  | refl => exact .refl _
  | step _ ih =>
      intro machine given
      have same := ih machine given
      rw [succ _ machine (same ▸ given), same]

/-- **Statements do the same with a larger allowance.** -/
theorem executeAll_of_le {n larger : Nat} (le : n ≤ larger) (stmts : List Stmt) :
    Prolongs (executeAll larger stmts) (executeAll n stmts) :=
  prolongs_of_le (fun n => (prolongs n).executeAll stmts) le

lemma execute_of_le {n larger : Nat} (le : n ≤ larger) (stmt : Stmt) :
    Prolongs (execute larger stmt) (execute n stmt) :=
  prolongs_of_le (fun n => (prolongs n).execute stmt) le

/-- Runs of a statement that do not give up agree. -/
lemma execute_agree {n other : Nat} {stmt : Stmt} {machine : Machine}
    (first : execute n stmt machine ≠ .exhausted) (second : execute other stmt machine ≠ .exhausted) :
    execute n stmt machine = execute other stmt machine := by
  rw [← execute_of_le (le_max_left n other) stmt machine first,
    ← execute_of_le (le_max_right n other) stmt machine second]

end Action

end LoxLang
