import Mathlib
import LoxLang.Proofs.Grammar.Indexed

/-!
# A parser that keeps a journal

The parser by index with a journal beside it: for each declaration that was begun, whether it was kept or
given up, where that happened, and the same for all declarations in the blocks that were gone through on
the way.  The journal is written by the declarations only, and nothing is read from it.

* `Attempt` — what came of a declaration; `Attempt.statements` — the statements that are left of several;
  `Attempt.raisedAll` — the errors that were raised in them.
* `Journaled` — a reading by index with a journal.
* `Journaled.assembly`, `Journaled.declarations` — the rules for declarations and statements.
* **`Journaled.courses`** — without the journal they are the rules of the parser by index.
-/

namespace LoxLang

/-- What came of a declaration, with all attempts in each block that it went through. -/
inductive Attempt where
  /-- A statement was read from one index to another. -/
  | kept (before after : Nat) (stmt : Stmt) (bodies : List (List Attempt))
  /-- An error was raised at `place`, and reading went on at `after` without the declaration. -/
  | dropped (before : Nat) (error : SyntaxError) (place after : Nat) (bodies : List (List Attempt))

namespace Attempt

/-- The statement that was read. -/
def stmt? : Attempt → Option Stmt
  | kept _ _ stmt _ => some stmt
  | dropped _ _ _ _ _ => none

/-- The statements that are left of several declarations. -/
def statements (attempts : List Attempt) : List Stmt := attempts.filterMap stmt?

lemma statements_cons (first : Attempt) (others : List Attempt) :
    statements (first :: others) = first.stmt?.toList ++ statements others := by
  cases first <;> rfl

mutual

/-- The errors that were raised, each with its index, in the order in which they were raised. -/
def raised : Attempt → List (SyntaxError × Nat)
  | kept _ _ _ bodies => raisedBodies bodies
  | dropped _ error place _ bodies => raisedBodies bodies ++ [(error, place)]

/-- The errors that were raised in several declarations. -/
def raisedAll : List Attempt → List (SyntaxError × Nat)
  | [] => []
  | first :: others => first.raised ++ raisedAll others

/-- The errors that were raised in several blocks. -/
def raisedBodies : List (List Attempt) → List (SyntaxError × Nat)
  | [] => []
  | first :: others => raisedAll first ++ raisedBodies others

end

lemma raisedAll_append (attempts others : List Attempt) :
    raisedAll (attempts ++ others) = raisedAll attempts ++ raisedAll others := by
  induction attempts with
  | nil => rfl
  | cons first attempts ih => simp only [List.cons_append, raisedAll, ih, List.append_assoc]

lemma raisedBodies_append (bodies others : List (List Attempt)) :
    raisedBodies (bodies ++ others) = raisedBodies bodies ++ raisedBodies others := by
  induction bodies with
  | nil => rfl
  | cons first bodies ih => simp only [List.cons_append, raisedBodies, ih, List.append_assoc]

end Attempt

/-- Reads a token list from an index on and writes entries to a journal. -/
def Journaled (entry α : Type) := List Token → Nat → Course α × List entry

namespace Journaled

variable {entry α β : Type}

/-- The reading without its journal. -/
def course (read : Journaled entry α) : Indexed α := fun tokens current => (read tokens current).1

/-- What is written behind a course: nothing, unless it ended with a value. -/
def behind (second : α → Journaled entry β) (tokens : List Token) (course : Course α) : List entry :=
  match course.ending with
  | .value value => (second value tokens course.current).2
  | _ => []

/-- A reading that writes nothing. -/
def silent (read : Indexed α) : Journaled entry α := fun tokens current => (read tokens current, [])

/-- One piece after another. -/
protected def bind (first : Journaled entry α) (second : α → Journaled entry β) :
    Journaled entry β := fun tokens current =>
  (Indexed.bind first.course (fun value => (second value).course) tokens current,
    (first tokens current).2 ++ behind second tokens (first tokens current).1)

instance : Monad (Journaled entry) where
  pure value := silent (pure value)
  bind := Journaled.bind

/-- Declarations between braces make one entry in the journal around them. -/
def enclosed (read : Journaled Attempt α) : Journaled (List Attempt) α := fun tokens current =>
  ((read tokens current).1, [(read tokens current).2])

/-- What is written for a declaration that began at `before` and was over at `after`. -/
def attempt (before after : Nat) : Course Stmt × List (List Attempt) → List Attempt
  | (⟨_, _, _, .value stmt⟩, bodies) => [.kept before after stmt bodies]
  | (⟨place, _, _, .raised error _⟩, bodies) => [.dropped before error place after bodies]
  | (_, _) => []

/-- A declaration makes one entry, whether it is kept or not. -/
def attempting (m : Nat) (read : Journaled (List Attempt) Stmt) : Journaled Attempt (Option Stmt) :=
  fun tokens current =>
    let course := (Indexed.declaring do
      let _ ← Indexed.peek
      Indexed.recovering m read.course) tokens current
    (course, attempt current course.current (read tokens current))

/-! ## The rules -/

/-- The rules for statements by index; what they read apart from declarations leaves no entries. -/
def assembly : Assembly (Journaled Attempt) (Journaled (List Attempt)) Stmt Stmt Stmt where
  toParts := Indexed.assembly.toParts.map silent
  trees := .plain
  forLoop clauses body := silent (Indexed.assembly.forLoop clauses body)
  asDeclaration := id
  stops closing := silent (Indexed.assembly.stops closing)
  attempt := attempting
  enclose := enclosed
  spentDeclaration := silent Indexed.exhausted
  spentStatement := silent Indexed.exhausted
  spentBlock := silent Indexed.exhausted
  spentDeclarations := silent Indexed.exhausted

/-- Declarations up to an end mark or to a token of the closing kind, if there is one. -/
def declarations (m : Nat) (closing : Option Kind) : Journaled Attempt (List Stmt) :=
  assembly.declarations m closing

/-! ## Without the journal -/

lemma course_bind {first : Journaled entry α} {second : α → Journaled entry β}
    {read : Indexed α} {next : α → Indexed β} (one : first.course = read)
    (other : ∀ value, (second value).course = next value) :
    (first >>= second).course = read >>= next := by
  subst one
  exact congrArg (first.course >>= ·) (funext other)

lemma course_attempting {m : Nat} {read : Journaled (List Attempt) Stmt} {plain : Indexed Stmt}
    (same : read.course = plain) :
    (attempting m read).course = Indexed.declaring (do
      let _ ← Indexed.peek
      Indexed.recovering m plain) := by
  subst same
  rfl

/-- The rules with `m` steps are those of the parser by index. -/
structure Courses (m : Nat) : Prop where
  declaration : (assembly.declaration m).course = Indexed.assembly.declaration m
  statement : (assembly.statement m).course = Indexed.assembly.statement m
  block : (assembly.block m).course = Indexed.assembly.block m
  declarations : ∀ closing,
    (assembly.declarations m closing).course = Indexed.assembly.declarations m closing

namespace Courses

lemma zero : Courses 0 := ⟨rfl, rfl, rfl, fun _ => rfl⟩

variable {m : Nat} (ih : Courses m)

include ih

lemma declaration_succ : (assembly.declaration (m + 1)).course =
    Indexed.assembly.declaration (m + 1) := by
  refine course_attempting (course_bind rfl fun found => ?_)
  cases found with
  | some _ => exact course_bind rfl fun named => course_bind ih.block fun _ => rfl
  | none =>
      refine course_bind rfl fun found => ?_
      cases found with
      | some _ => rfl
      | none => exact ih.statement

lemma statement_succ : (assembly.statement (m + 1)).course = Indexed.assembly.statement (m + 1) := by
  refine course_bind rfl fun opening => ?_
  cases opening with
  | none => rfl
  | some opening =>
      cases opening with
      | forLoop => exact course_bind rfl fun clauses => course_bind ih.statement fun _ => rfl
      | branch =>
          refine course_bind rfl fun condition => course_bind ih.statement fun consequent => ?_
          refine course_bind rfl fun found => ?_
          cases found with
          | none => rfl
          | some _ => exact course_bind ih.statement fun _ => rfl
      | loop => exact course_bind rfl fun condition => course_bind ih.statement fun _ => rfl
      | return_ keyword => rfl
      | print => rfl
      | block => exact course_bind ih.block fun _ => rfl

lemma block_succ : (assembly.block (m + 1)).course = Indexed.assembly.block (m + 1) :=
  course_bind (ih.declarations _) fun _ => rfl

lemma declarations_succ (closing : Option Kind) :
    (assembly.declarations (m + 1) closing).course = Indexed.assembly.declarations (m + 1) closing := by
  refine course_bind rfl fun stop => ?_
  cases stop with
  | true => rfl
  | false =>
      exact course_bind ih.declaration fun first => course_bind (ih.declarations closing) fun _ => rfl

end Courses

/-- **Without their journal, the rules are those of the parser by index.** -/
theorem courses (m : Nat) : Courses m := by
  induction m with
  | zero => exact .zero
  | succ m ih =>
      exact ⟨ih.declaration_succ, ih.statement_succ, ih.block_succ, ih.declarations_succ⟩

end Journaled

end LoxLang
