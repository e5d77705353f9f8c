import LoxLang.Program.Occurrence
import LoxLang.Proofs.Grammar.Yields
import Mathlib

/-!
# Trees fresh from the parser

Two things hold of every tree that reading tokens can give, also after errors.  No occurrence has
hops yet, since only binding gives them.  And a branch or a loop body is a statement and never a
declaration, so that what stands behind it in a scope does not depend on whether it ran.

* `Stmt.Orderly`, `Stmt.Fresh` — the two facts as properties of trees.
* `Expr.fresh_grammatical`, `Stmt.fresh_grammatical` — the rules of the grammar preserve them.
* **`Program.read_fresh`**, **`Program.readExpression_fresh`** — they hold of what is read.
-/

namespace LoxLang

/-! ## The properties -/

mutual

/-- No branch and no loop body is a declaration. -/
def Stmt.Orderly : Stmt → Prop
  | .block body => Stmt.OrderlyAll body
  | .branch _ consequent alternative =>
    consequent.declared = [] ∧ consequent.Orderly
      ∧ Stmt.declared? alternative = [] ∧ Stmt.Orderly? alternative
  | .loop _ body => body.declared = [] ∧ body.Orderly
  | .function _ _ body => Stmt.OrderlyAll body
  | .expression _ => True
  | .print _ => True
  | .variable _ _ => True
  | .return_ _ _ => True

/-- No branch and no loop body in statements is a declaration. -/
def Stmt.OrderlyAll : List Stmt → Prop
  | [] => True
  | first :: others => first.Orderly ∧ Stmt.OrderlyAll others

/-- No branch and no loop body in a statement that may be missing is a declaration. -/
def Stmt.Orderly? : Option Stmt → Prop
  | none => True
  | some stmt => stmt.Orderly

end

/-- Occurrences without hops. -/
def Occurrence.Unbound (occurrences : List Occurrence) : Prop :=
  ∀ occurrence ∈ occurrences, occurrence.hops = none

/-- An expression that was not bound yet. -/
def Expr.Fresh (value : Expr) : Prop := Occurrence.Unbound value.occurrences

/-- A statement that was not bound yet and declares names only where declarations stand. -/
def Stmt.Fresh (stmt : Stmt) : Prop := stmt.Orderly ∧ Occurrence.Unbound stmt.occurrences

/-- Statements that were not bound yet and declare names only where declarations stand. -/
def Stmt.FreshAll (stmts : List Stmt) : Prop :=
  Stmt.OrderlyAll stmts ∧ Occurrence.Unbound (Stmt.occurrencesAll stmts)

@[simp] lemma Occurrence.unbound_nil : Occurrence.Unbound [] := by simp [Occurrence.Unbound]

@[simp] lemma Occurrence.unbound_append (left right : List Occurrence) :
    Occurrence.Unbound (left ++ right)
      ↔ Occurrence.Unbound left ∧ Occurrence.Unbound right := by
  simp only [Occurrence.Unbound, List.mem_append]
  constructor
  · intro h
    exact ⟨fun o occurs => h o (Or.inl occurs), fun o occurs => h o (Or.inr occurs)⟩
  · rintro ⟨onLeft, onRight⟩ o (occurs | occurs)
    · exact onLeft o occurs
    · exact onRight o occurs

@[simp] lemma Occurrence.unbound_singleton (occurrence : Occurrence) :
    Occurrence.Unbound [occurrence] ↔ occurrence.hops = none := by
  simp [Occurrence.Unbound]

lemma Stmt.freshAll_cons {first : Stmt} {others : List Stmt} :
    Stmt.FreshAll (first :: others) ↔ first.Fresh ∧ Stmt.FreshAll others := by
  simp only [Stmt.FreshAll, Stmt.Fresh, Stmt.OrderlyAll, Stmt.occurrencesAll,
    Occurrence.unbound_append]
  tauto

lemma Parser.freshAll_nil : Stmt.FreshAll [] := ⟨trivial, by simp [Stmt.occurrencesAll]⟩

lemma Stmt.freshAll_iff {stmts : List Stmt} :
    Stmt.FreshAll stmts ↔ ∀ stmt ∈ stmts, stmt.Fresh := by
  induction stmts with
  | nil => exact iff_of_true Parser.freshAll_nil (by simp)
  | cons first others ih => rw [Stmt.freshAll_cons, ih, List.forall_mem_cons]

/-! ## The rules -/

lemma Expr.unbound_occurrencesAll {values : List Expr} :
    Occurrence.Unbound (Expr.occurrencesAll values) ↔ ∀ value ∈ values, value.Fresh := by
  induction values with
  | nil => simp [Expr.occurrencesAll]
  | cons first others ih =>
      rw [Expr.occurrencesAll, Occurrence.unbound_append, ih, List.forall_mem_cons, Expr.Fresh]

lemma Expr.unbound_occurrences? {value : Option Expr} (all : ∀ given ∈ value, given.Fresh) :
    Occurrence.Unbound (Expr.occurrences? value) := by
  cases value with
  | none => simp [Expr.occurrences?]
  | some value => exact all value rfl

/-- A node has the occurrences of its parts, and a new variable has no hops. -/
lemma Expr.fresh_grammatical : Expr.Grammatical Expr.Fresh where
  literal value := by simp [Expr.Fresh, Expr.occurrences]
  group inner := inner
  unary _ operand := operand
  row {level left right operator} listed _ leftFresh rightFresh := by
    simp only [Level.all, List.mem_cons, List.not_mem_nil, or_false] at listed
    rcases listed with rfl | rfl | rfl | rfl | rfl | rfl <;>
      simpa [Expr.Fresh, Expr.occurrences] using And.intro leftFresh rightFresh
  «variable» _ := by simp [Expr.Fresh, Expr.occurrences]
  assign _ value := by simpa [Expr.Fresh, Expr.occurrences] using value
  call callee _ values := by
    simpa [Expr.Fresh, Expr.occurrences] using And.intro callee (Expr.unbound_occurrencesAll.mpr values)

/-- A statement that is fresh, and declares nothing unless it is a declaration. -/
def Stmt.FreshlyDeclares (stmt : Stmt) : Prop :=
  stmt.Fresh ∧ (stmt.isDeclaration = false → stmt.declared = [])

lemma Stmt.fresh_branch {condition : Expr} {consequent : Stmt} {alternative : Option Stmt}
    (conditionFresh : condition.Fresh) (consequentFresh : consequent.Plainly Stmt.FreshlyDeclares)
    (alternativeFresh : ∀ stmt ∈ alternative, stmt.Plainly Stmt.FreshlyDeclares) :
    (Stmt.branch condition consequent alternative).FreshlyDeclares := by
  obtain ⟨plain, ⟨orderly, unbound⟩, undeclared⟩ := consequentFresh
  have declared := undeclared plain
  cases alternative with
  | none =>
      refine ⟨⟨⟨declared, orderly, rfl, trivial⟩, ?_⟩, fun _ => ?_⟩
      · simpa [Stmt.occurrences, Stmt.occurrences?, Expr.Fresh] using And.intro conditionFresh unbound
      · simp [Stmt.declared, Stmt.declared?, declared]
  | some stmt =>
      obtain ⟨plain', ⟨orderly', unbound'⟩, undeclared'⟩ := alternativeFresh stmt rfl
      have declared' := undeclared' plain'
      refine ⟨⟨⟨declared, orderly, declared', orderly'⟩, ?_⟩, fun _ => ?_⟩
      · simpa [Stmt.occurrences, Stmt.occurrences?, Expr.Fresh] using
          And.intro conditionFresh (And.intro unbound unbound')
      · simp [Stmt.declared, Stmt.declared?, declared, declared']

/-- Blocks and functions keep what is declared in them, and a branch or a loop body is no
declaration. -/
lemma Stmt.fresh_grammatical : Stmt.Grammatical Expr.Fresh Stmt.FreshlyDeclares where
  expression value := ⟨⟨trivial, value⟩, fun _ => rfl⟩
  print value := ⟨⟨trivial, value⟩, fun _ => rfl⟩
  «variable» _ initializer := ⟨⟨trivial, Expr.unbound_occurrences? initializer⟩, nofun⟩
  block body := ⟨Stmt.freshAll_iff.mpr fun stmt mem => (body stmt mem).1, fun _ => rfl⟩
  branch := Stmt.fresh_branch
  loop condition body := by
    obtain ⟨plain, ⟨orderly, unbound⟩, undeclared⟩ := body
    refine ⟨⟨⟨undeclared plain, orderly⟩, ?_⟩, fun _ => undeclared plain⟩
    simpa [Stmt.occurrences, Expr.Fresh] using And.intro condition unbound
  function _ _ body := ⟨Stmt.freshAll_iff.mpr fun stmt mem => (body stmt mem).1, nofun⟩
  return_ _ value := ⟨⟨trivial, Expr.unbound_occurrences? value⟩, fun _ => rfl⟩

/-! ## Whole inputs -/

namespace Program

lemma parse_fresh (tokens : List Token) : Stmt.FreshAll (parse tokens).tree :=
  Stmt.freshAll_iff.mpr fun stmt mem =>
    (parse_grammatical Expr.fresh_grammatical Stmt.fresh_grammatical tokens stmt mem).1

/-- **What is read as a program is fresh**, with or without errors in it. -/
theorem read_fresh (source : String) : Stmt.FreshAll (read source).1 := parse_fresh _

/-- **What is read as an expression is fresh.** -/
theorem readExpression_fresh {source : String} {value : Expr}
    (found : (readExpression source).1 = some value) : value.Fresh :=
  parseExpression_grammatical Expr.fresh_grammatical found

end Program

end LoxLang
