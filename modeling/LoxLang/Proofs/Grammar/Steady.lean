import Mathlib
import LoxLang.Proofs.Grammar.Recover

/-!
# Reading without recovery

Only declarations recover from an error.  All other rules move the index on or leave it where it is, and
end where they are when something that has to be there is missing.  What they tell of on the way are the
errors that stop nothing: a list that is too long, and a left side that is no variable.

* `SyntaxError.stops` — the errors that stop a declaration.
* `Course.Steady`, `Indexed.Steady` — a course, and a reading, of this kind, for any number of steps; one
  lemma for each way to put readings together.
* **`Indexed.steadyExpressions`** — the rules for expressions.
* `Indexed.Steady.signature`, `Indexed.Steady.forClauses` and the lemmas around them — the parts of
  statements.
-/

namespace LoxLang

open Program (beforeEnd endIndex located tokenAt drop_eq_cons drop_endIndex)

/-- Whether an error stops the declaration that it stands in. -/
def SyntaxError.stops : SyntaxError → Bool
  | .expected _ => true
  | .tooManyParameters => false
  | .tooManyArguments => false
  | .invalidTarget => false

/-- **A course that went on without recovery.**  An error that ended it is about the token at the
index. -/
inductive Course.Steady {α : Type} (tokens : List Token) (start : Nat) : Course α → Prop
  | value {stop : Nat} {looks : List Look} {told : List (SyntaxError × Token)} {value : α}
      (forward : start ≤ stop) (within : stop ≤ endIndex tokens)
      (mild : ∀ one ∈ told, one.1.stops = false) :
      Steady tokens start ⟨stop, looks, told, .value value⟩
  | raised {stop : Nat} {looks : List Look} {told : List (SyntaxError × Token)} {error : SyntaxError}
      (forward : start ≤ stop) (within : stop ≤ endIndex tokens)
      (mild : ∀ one ∈ told, one.1.stops = false) (hard : error.stops = true) :
      Steady tokens start ⟨stop, looks, told, .raised error (tokenAt tokens stop)⟩
  | exhausted {stop : Nat} {looks : List Look} {told : List (SyntaxError × Token)} :
      Steady tokens start ⟨stop, looks, told, .exhausted⟩

/-- What came before in a course that went on in this way. -/
lemma Course.Steady.after {α : Type} {tokens : List Token} {start middle : Nat} {course : Course α}
    (steady : course.Steady tokens middle) (forward : start ≤ middle) (looks : List Look)
    {told : List (SyntaxError × Token)} (mild : ∀ one ∈ told, one.1.stops = false) :
    Course.Steady tokens start
      ⟨course.current, looks ++ course.looks, told ++ course.reports, course.ending⟩ := by
  cases steady with
  | value forward' within mild' =>
      exact .value (forward.trans forward') within (List.forall_mem_append.mpr ⟨mild, mild'⟩)
  | raised forward' within mild' hard =>
      exact .raised (forward.trans forward') within (List.forall_mem_append.mpr ⟨mild, mild'⟩) hard
  | exhausted => exact .exhausted

namespace Indexed

variable {α β : Type} {tokens : List Token}

/-- From every index, the reading goes on without recovery. -/
def Steady (tokens : List Token) (read : Indexed α) : Prop :=
  ∀ start ≤ endIndex tokens, (read tokens start).Steady tokens start

namespace Steady

/-! ## Putting readings together -/

lemma pure (value : α) : Steady tokens (Pure.pure value) :=
  fun _ within => .value le_rfl within (by simp)

lemma exhausted : Steady tokens (Indexed.exhausted : Indexed α) := fun _ _ => .exhausted

lemma bind {first : Indexed α} {second : α → Indexed β} (before : Steady tokens first)
    (after : ∀ value, Steady tokens (second value)) : Steady tokens (first >>= second) := by
  intro start within
  have one := before start within
  show (Indexed.bind first second tokens start).Steady tokens start
  unfold Indexed.bind
  generalize first tokens start = course at one ⊢
  cases one with
  | @value middle looks told value forward within mild =>
      exact (after value middle within).after forward looks mild
  | raised forward within mild hard => exact .raised forward within mild hard
  | exhausted => exact .exhausted

lemma map {read : Indexed α} (f : α → β) (steady : Steady tokens read) : Steady tokens (f <$> read) :=
  steady.bind fun _ => pure _

/-- Both cases of what may be there. -/
lemma branch {first : Indexed (Option α)} {second : Option α → Indexed β}
    (before : Steady tokens first) (absent : Steady tokens (second none))
    (present : ∀ value, Steady tokens (second (some value))) : Steady tokens (first >>= second) :=
  before.bind fun found => by
    cases found with
    | none => exact absent
    | some value => exact present value

lemma choice {c : Prop} [Decidable c] {yes no : Indexed α} (one : Steady tokens yes)
    (other : Steady tokens no) : Steady tokens (if c then yes else no) := by
  split
  · exact one
  · exact other

/-- Something may be told of first. -/
lemma guarded {c : Prop} [Decidable c] {first : Indexed β} {read : Indexed α}
    (told : Steady tokens first) (after : Steady tokens read) :
    Steady tokens (if c then first >>= fun _ => read else read) :=
  choice (told.bind fun _ => after) after

lemma of_passes {read : Indexed α}
    (passes : ∀ start ≤ endIndex tokens, ∃ value stop, Passes tokens start read value stop) :
    Steady tokens read := by
  intro start within
  obtain ⟨value, stop, looks, run, trail⟩ := passes start within
  rw [run]
  exact .value trail.forward trail.within (by simp)

/-! ## Single tokens -/

lemma report {error : SyntaxError} (mild : error.stops = false) (place : Token) :
    Steady tokens (Indexed.report error place) :=
  fun _ within => .value le_rfl within (by simpa using mild)

section

variable (ended : ∃ token ∈ tokens, token.isEnd)

include ended

lemma peek : Steady tokens Indexed.peek :=
  of_passes fun _ within => ⟨_, _, passes_peek ended within⟩

lemma check (kind : Kind) : Steady tokens (Indexed.check kind) :=
  of_passes fun _ within => ⟨_, _, passes_check ended within kind⟩

lemma acceptAny (kinds : List Kind) : Steady tokens (Indexed.acceptAny kinds) := by
  refine of_passes fun start within => ?_
  rcases Nat.lt_or_eq_of_le within with inside | rfl
  · have passes := passes_acceptAny ended inside kinds
    split at passes
    · exact ⟨_, _, passes⟩
    · exact ⟨_, _, passes⟩
  · exact ⟨_, _, passes_acceptAny_end ended kinds⟩

lemma accept (kind : Kind) : Steady tokens (Indexed.accept kind) := acceptAny ended [kind]

lemma acceptMap (kinds : List Kind) (f : Token → Option α) :
    Steady tokens (Indexed.acceptMap kinds f) :=
  (acceptAny ended kinds).branch (pure none) fun _ => pure _

lemma raise (what : Expectation) : Steady tokens (Indexed.raise (.expected what) : Indexed α) := by
  intro start within
  obtain ⟨looks, run, trail⟩ := passes_peek ended within
  unfold Indexed.raise
  rw [run]
  exact .raised le_rfl within (by simp) rfl

lemma expect (kind : Kind) (what : Expectation) : Steady tokens (Indexed.expect kind what) := by
  intro start within
  obtain ⟨looks, run, -⟩ := passes_check ended within kind
  show (Indexed.bind (Indexed.check kind) _ tokens start).Steady tokens start
  simp only [Indexed.bind, run]
  refine Course.Steady.after ?_ le_rfl looks (by simp)
  rcases Nat.lt_or_eq_of_le within with inside | rfl
  · split
    · obtain ⟨more, run, trail⟩ := passes_advance ended inside
      rw [run]
      exact .value trail.forward trail.within (by simp)
    · exact raise ended what start within
  · rw [drop_endIndex]
    exact raise ended what _ within

end

end Steady

/-! ## Expressions -/

/-- With `m` steps, the functions for expressions go on without recovery. -/
structure SteadyExpressions (tokens : List Token) (m : Nat) : Prop where
  assignment : Steady tokens (reader.assignment m)
  operation : ∀ levels, Steady tokens (reader.operation m levels)
  chain : ∀ level tighter left, Steady tokens (reader.chain m level tighter left)
  unary : Steady tokens (reader.unary m)
  calls : ∀ callee, Steady tokens (reader.calls m callee)
  arguments : ∀ count, Steady tokens (reader.arguments m count)
  primary : Steady tokens (reader.primary m)

namespace SteadyExpressions

variable {m : Nat} (ih : SteadyExpressions tokens m)

include ih

lemma operation_succ (levels : List Level) : Steady tokens (reader.operation (m + 1) levels) := by
  cases levels with
  | nil => exact ih.unary
  | cons level tighter => exact (ih.operation tighter).bind fun left => ih.chain level tighter left

variable (ended : ∃ token ∈ tokens, token.isEnd)

include ended

lemma assignment_succ : Steady tokens (reader.assignment (m + 1)) := by
  refine (ih.operation Level.all).bind fun target => ?_
  refine (Steady.accept ended .equal).branch (.pure target) fun equals => ?_
  refine ih.assignment.bind fun _ => ?_
  cases target with
  | «variable» name hops => exact .pure _
  | _ => exact (Steady.report rfl equals).bind fun _ => .pure _

lemma chain_succ (level : Level) (tighter : List Level) (left : Expr) :
    Steady tokens (reader.chain (m + 1) level tighter left) :=
  (Steady.acceptAny ended level.operators).branch (.pure left) fun _ =>
    (ih.operation tighter).bind fun _ => (Steady.pure _).bind fun _ => ih.chain level tighter _

lemma unary_succ : Steady tokens (reader.unary (m + 1)) :=
  (Steady.acceptAny ended [.bang, .minus]).branch (ih.primary.bind fun callee => ih.calls callee)
    fun _ => ih.unary.bind fun _ => .pure _

lemma calls_succ (callee : Expr) : Steady tokens (reader.calls (m + 1) callee) := by
  have close (values : List Expr) : Steady tokens (do
      let closing ← reader.expect .rightParen .closeParenAfterArguments
      let whole ← reader.node fun _ => .call callee closing values
      reader.calls m whole) :=
    (Steady.expect ended _ _).bind fun _ => (Steady.pure _).bind fun _ => ih.calls _
  refine (Steady.accept ended .leftParen).branch (.pure callee) fun _ => ?_
  exact (Steady.check ended .rightParen).bind fun closed =>
    .choice (close []) ((ih.arguments 0).bind close)

lemma arguments_succ (count : Nat) : Steady tokens (reader.arguments (m + 1) count) := by
  refine .guarded ((Steady.peek ended).bind fun place => .report rfl place) ?_
  refine ih.assignment.bind fun first => ?_
  exact (Steady.accept ended .comma).branch (.pure [first]) fun _ =>
    (ih.arguments (count + 1)).bind fun _ => .pure _

lemma primary_succ : Steady tokens (reader.primary (m + 1)) := by
  refine (Steady.acceptMap ended _ _).branch ?_ fun _ => .pure _
  refine (Steady.accept ended .identifier).branch ?_ fun _ => .pure _
  refine (Steady.accept ended .leftParen).branch (.raise ended _) fun _ => ?_
  exact ih.assignment.bind fun _ => (Steady.expect ended _ _).bind fun _ => .pure _

end SteadyExpressions

/-- **The rules for expressions recover from nothing.** -/
theorem steadyExpressions (ended : ∃ token ∈ tokens, token.isEnd) (m : Nat) :
    SteadyExpressions tokens m := by
  induction m with
  | zero => constructor <;> intros <;> exact .exhausted
  | succ m ih => exact ⟨ih.assignment_succ ended, ih.operation_succ, ih.chain_succ ended,
      ih.unary_succ ended, ih.calls_succ ended, ih.arguments_succ ended, ih.primary_succ ended⟩

/-! ## Parts of statements -/

namespace Steady

variable (ended : ∃ token ∈ tokens, token.isEnd) (m : Nat)

include ended

lemma expression : Steady tokens (reader.assignment m) := (steadyExpressions ended m).assignment

lemma clause (closing : Kind) : Steady tokens (reader.clause (reader.assignment m) closing) :=
  (check ended closing).bind fun _ => choice (pure none) ((expression ended m).map some)

lemma variableDeclaration (make : Token → Option Expr → α) :
    Steady tokens (reader.variableDeclaration (reader.assignment m) make) := by
  have close (name : Token) (initializer : Option Expr) : Steady tokens do
      let _ ← Indexed.expect .semicolon .semicolonAfterVariable
      return make name initializer :=
    (expect ended _ _).bind fun _ => pure _
  refine (expect ended _ _).bind fun name => ?_
  exact (accept ended .equal).branch (close name none) fun _ =>
    ((expression ended m).map some).bind fun initializer => close name initializer

lemma valueStatement (what : Expectation) (make : Expr → α) :
    Steady tokens (reader.valueStatement (reader.assignment m) what make) :=
  (expression ended m).bind fun _ => (expect ended _ _).bind fun _ => pure _

lemma returnStatement (make : Option Expr → α) :
    Steady tokens (reader.returnStatement (reader.assignment m) make) :=
  (clause ended m .semicolon).bind fun _ => (expect ended _ _).bind fun _ => pure _

lemma condition (opening closing : Expectation) :
    Steady tokens (reader.condition (reader.assignment m) opening closing) :=
  (expect ended _ _).bind fun _ => (expression ended m).bind fun _ =>
    (expect ended _ _).bind fun _ => pure _

lemma parameters (count : Nat) : Steady tokens (reader.parameters m count) := by
  induction m generalizing count with
  | zero => exact exhausted
  | succ m ih =>
      refine guarded ((peek ended).bind fun place => report rfl place) ?_
      refine (expect ended _ _).bind fun first => ?_
      exact (accept ended .comma).branch (pure [first]) fun _ =>
        (ih (count + 1)).bind fun _ => pure _

lemma signature : Steady tokens (assembly.signature m) := by
  have close (name : Token) (names : List Token) : Steady tokens do
      let _ ← Indexed.expect .rightParen .closeParenAfterParameters
      let _ ← Indexed.expect .leftBrace .openBraceOfFunction
      return (name, names) :=
    (expect ended _ _).bind fun _ => (expect ended _ _).bind fun _ => pure _
  refine (expect ended _ _).bind fun name => (expect ended _ _).bind fun _ => ?_
  exact (check ended .rightParen).bind fun _ =>
    choice (close name []) ((parameters ended m 0).bind fun names => close name names)

lemma forInitializer (makeVar : Token → Option Expr → α) (makeValue : Expr → α) :
    Steady tokens (reader.forInitializer (reader.assignment m) makeVar makeValue) := by
  refine (accept ended .semicolon).branch ?_ fun _ => pure none
  exact (accept ended (.keyword .var)).branch ((valueStatement ended m _ makeValue).map some)
    fun _ => (variableDeclaration ended m makeVar).map some

lemma forClauses : Steady tokens (assembly.forClauses m) :=
  (expect ended _ _).bind fun _ => (forInitializer ended m _ _).bind fun _ =>
    (clause ended m .semicolon).bind fun _ => (expect ended _ _).bind fun _ =>
      (clause ended m .rightParen).bind fun _ => (expect ended _ _).bind fun _ => pure _

lemma opening : Steady tokens Indexed.opening := acceptMap ended _ _

end Steady

end Indexed

end LoxLang
