import LoxLang.Binding
import LoxLang.Evaluation.Operator
import LoxLang.Proofs.Grammar.Yields
import Mathlib

/-!
# Well-formed trees

A tree is more liberal than the grammar: any token could stand for an operator or a name, and any
statement in a branch.  The trees that are read are not, whatever the tokens and the errors among them
were, and binding their variables changes nothing about it.

* `Expr.WellFormed`, `Stmt.WellFormed` — each token that a node keeps is of a kind that fits the node,
  and declarations stand only where a scope takes them.
* **`Program.wellFormed_parse`**, **`Program.wellFormed_parseExpression`** — all trees that are read are
  well formed.
* `Stmt.WellFormed.bound` — and they still are when they are bound.
* `Value.prefixed_eq_unknown_iff`, `Value.combined_eq_unknown_iff` — operators are unknown exactly if
  they are none of those in well-formed trees.
-/

namespace LoxLang

/-! ## Kinds of operators -/

namespace Kind

/-- The operators in front of one operand. -/
def unaryOperators : List Kind := [bang, minus]

/-- The operators between two operands that are both evaluated. -/
def binaryOperators : List Kind :=
  [bangEqual, equalEqual, greater, greaterEqual, less, lessEqual, minus, plus, slash, star]

/-- The operators that may leave their second operand alone. -/
def logicalOperators : List Kind := [.keyword .and, .keyword .or]

end Kind

namespace Value

/-- Whether a value can be called. -/
def isCallable : Value → Bool
  | function _ _ => true
  | native _ _ => true
  | _ => false

/-- **A unary operator is unknown exactly if it is not one of the two.** -/
lemma prefixed_eq_unknown_iff {operator : Kind} {operand : Value} :
    operand.prefixed operator = .error .unknownUnary ↔ operator ∉ Kind.unaryOperators := by
  unfold prefixed
  split
  · split <;> simp [Kind.unaryOperators]
  · simp [Kind.unaryOperators]
  · next noMinus noBang => simpa [Kind.unaryOperators] using ⟨noBang, noMinus⟩

lemma sum_ne_unknown (left right : Value) : left.sum right ≠ .error .unknownBinary := by
  unfold sum
  split <;> nofun

/-- What takes two numbers is one of the ten. -/
lemma mem_of_arithmetic? {operator : Kind} {f : Float → Float → Value}
    (found : arithmetic? operator = some f) : operator ∈ Kind.binaryOperators := by
  unfold arithmetic? at found
  split at found
  case h_8 => cases found
  all_goals simp [Kind.binaryOperators]

/-- The other three of the ten are asked for before. -/
lemma not_mem_of_arithmetic? {operator : Kind} (noEqual : operator ≠ .equalEqual)
    (noDifferent : operator ≠ .bangEqual) (noPlus : operator ≠ .plus)
    (missing : arithmetic? operator = none) : operator ∉ Kind.binaryOperators := by
  intro listed
  simp only [Kind.binaryOperators, List.mem_cons, List.not_mem_nil, or_false] at listed
  rcases listed with rfl | rfl | rfl | rfl | rfl | rfl | rfl | rfl | rfl | rfl <;>
    simp_all [arithmetic?]

/-- **A binary operator is unknown exactly if it is not one of the ten.** -/
lemma combined_eq_unknown_iff {operator : Kind} {left right : Value} :
    left.combined operator right = .error .unknownBinary ↔ operator ∉ Kind.binaryOperators := by
  unfold combined
  split
  · simp [Kind.binaryOperators]
  · simp [Kind.binaryOperators]
  · simp [Kind.binaryOperators, sum_ne_unknown]
  · next noEqual noDifferent noPlus =>
      split
      · next missing =>
          exact iff_of_true rfl (not_mem_of_arithmetic? noEqual noDifferent noPlus missing)
      · next found =>
          refine iff_of_false ?_ (not_not_intro (mem_of_arithmetic? found))
          split <;> nofun

end Value

/-! ## Well-formed trees -/

mutual

/-- **A well-formed expression.** -/
def Expr.WellFormed : Expr → Prop
  | .literal constant => constant.value.isCallable = false
  | .group inner => inner.WellFormed
  | .unary operator operand => operator.kind ∈ Kind.unaryOperators ∧ operand.WellFormed
  | .binary left operator right =>
    operator.kind ∈ Kind.binaryOperators ∧ left.WellFormed ∧ right.WellFormed
  | .logical left operator right =>
    operator.kind ∈ Kind.logicalOperators ∧ left.WellFormed ∧ right.WellFormed
  | .variable name _ => name.kind = .identifier
  | .assign name value _ => name.kind = .identifier ∧ value.WellFormed
  | .call callee paren arguments =>
    paren.kind = .rightParen ∧ callee.WellFormed ∧ Expr.WellFormedAll arguments

/-- Well-formed arguments. -/
def Expr.WellFormedAll : List Expr → Prop
  | [] => True
  | first :: others => first.WellFormed ∧ Expr.WellFormedAll others

end

/-- An expression that is well formed or missing. -/
def Expr.WellFormed? (value : Option Expr) : Prop := ∀ given ∈ value, given.WellFormed

mutual

/-- **A well-formed statement.**  What stands in a branch or a loop is no declaration. -/
def Stmt.WellFormed : Stmt → Prop
  | .expression value => value.WellFormed
  | .print value => value.WellFormed
  | .variable name initializer => name.kind = .identifier ∧ Expr.WellFormed? initializer
  | .block body => Stmt.WellFormedAll body
  | .branch condition consequent alternative =>
    condition.WellFormed ∧ (consequent.isDeclaration = false ∧ consequent.WellFormed)
      ∧ Stmt.WellFormedElse alternative
  | .loop condition body => condition.WellFormed ∧ body.isDeclaration = false ∧ body.WellFormed
  | .function name parameters body =>
    name.kind = .identifier ∧ (∀ parameter ∈ parameters, parameter.kind = .identifier)
      ∧ Stmt.WellFormedAll body
  | .return_ keyword value => keyword.kind = .keyword .return_ ∧ Expr.WellFormed? value

/-- Well-formed statements, any of which may be declarations. -/
def Stmt.WellFormedAll : List Stmt → Prop
  | [] => True
  | first :: others => first.WellFormed ∧ Stmt.WellFormedAll others

/-- Another branch that is well formed or missing. -/
def Stmt.WellFormedElse : Option Stmt → Prop
  | none => True
  | some alternative => alternative.isDeclaration = false ∧ alternative.WellFormed

end

lemma Expr.wellFormedAll_iff {values : List Expr} :
    Expr.WellFormedAll values ↔ ∀ value ∈ values, value.WellFormed := by
  induction values with
  | nil => simp [Expr.WellFormedAll]
  | cons first others ih => rw [Expr.WellFormedAll, ih, List.forall_mem_cons]

lemma Stmt.wellFormedAll_iff {stmts : List Stmt} :
    Stmt.WellFormedAll stmts ↔ ∀ stmt ∈ stmts, stmt.WellFormed := by
  induction stmts with
  | nil => simp [Stmt.WellFormedAll]
  | cons first others ih => rw [Stmt.WellFormedAll, ih, List.forall_mem_cons]

lemma Stmt.wellFormedElse_iff {stmt : Option Stmt} :
    Stmt.WellFormedElse stmt ↔ ∀ given ∈ stmt, given.Plainly Stmt.WellFormed := by
  cases stmt with
  | none => simp [Stmt.WellFormedElse]
  | some stmt => simp [Stmt.WellFormedElse, Stmt.Plainly]

/-! ## What is read -/

/-- A literal token never stands for a function. -/
lemma Constant.isCallable_value (constant : Constant) : constant.value.isCallable = false := by
  cases constant <;> rfl

lemma Expr.wellFormed_grammatical : Expr.Grammatical Expr.WellFormed where
  literal := Constant.isCallable_value
  group inner := inner
  unary operator operand := ⟨operator, operand⟩
  row {level left right operator} listed taken leftFormed rightFormed := by
    -- the first two rows make logical nodes, the others binary ones
    simp only [Level.all, List.mem_cons, List.not_mem_nil, or_false] at listed
    rcases listed with rfl | rfl | rfl | rfl | rfl | rfl <;>
      refine ⟨?_, leftFormed, rightFormed⟩ <;>
      simp only [List.mem_cons, List.not_mem_nil, or_false] at taken <;>
      simp only [Kind.logicalOperators, Kind.binaryOperators, List.mem_cons] <;> tauto
  «variable» name := name
  assign target value := ⟨target, value⟩
  call callee paren values := ⟨paren, callee, Expr.wellFormedAll_iff.mpr values⟩

lemma Stmt.wellFormed_grammatical : Stmt.Grammatical Expr.WellFormed Stmt.WellFormed where
  expression value := value
  print value := value
  «variable» name initializer := ⟨name, initializer⟩
  block body := Stmt.wellFormedAll_iff.mpr body
  branch condition consequent alternative :=
    ⟨condition, consequent, Stmt.wellFormedElse_iff.mpr alternative⟩
  loop condition body := ⟨condition, body⟩
  function name parameters body := ⟨name, parameters, Stmt.wellFormedAll_iff.mpr body⟩
  return_ keyword value := ⟨keyword, value⟩

namespace Program

/-- **The statements that are read are well formed**, with or without errors. -/
theorem wellFormed_parse (tokens : List Token) : Stmt.WellFormedAll (parse tokens).tree :=
  Stmt.wellFormedAll_iff.mpr
    (parse_grammatical Expr.wellFormed_grammatical Stmt.wellFormed_grammatical tokens)

/-- **The expression that is read is well formed.** -/
theorem wellFormed_parseExpression {tokens : List Token} {value : Expr}
    (found : (parseExpression tokens).tree = some value) : value.WellFormed :=
  parseExpression_grammatical Expr.wellFormed_grammatical found

end Program

/-! ## Binding -/

mutual

/-- Hops are no part of what makes an expression well formed. -/
lemma Expr.WellFormed.bound (frames : Frames) : ∀ {value : Expr}, value.WellFormed →
    (value.bound frames).WellFormed
  | .literal _, h => h
  | .group inner, h => by
      have within : inner.WellFormed := h
      exact within.bound frames
  | .unary _ _, h => ⟨h.1, h.2.bound frames⟩
  | .binary _ _ _, h => ⟨h.1, h.2.1.bound frames, h.2.2.bound frames⟩
  | .logical _ _ _, h => ⟨h.1, h.2.1.bound frames, h.2.2.bound frames⟩
  | .variable _ _, h => h
  | .assign _ _ _, h => ⟨h.1, h.2.bound frames⟩
  | .call _ _ _, h => ⟨h.1, h.2.1.bound frames, Expr.wellFormedAll_bound frames h.2.2⟩

lemma Expr.wellFormedAll_bound (frames : Frames) : ∀ {values : List Expr},
    Expr.WellFormedAll values → Expr.WellFormedAll (Expr.boundAll frames values)
  | [], h => h
  | _ :: _, h => ⟨h.1.bound frames, Expr.wellFormedAll_bound frames h.2⟩

end

lemma Expr.WellFormed?.bound (frames : Frames) {value : Option Expr} (formed : Expr.WellFormed? value) :
    Expr.WellFormed? (value.map (Expr.bound frames)) := by
  intro given mem
  obtain ⟨value, inside, rfl⟩ := Option.map_eq_some_iff.mp mem
  exact (formed value inside).bound frames

/-- Binding makes no declaration of a statement. -/
lemma Stmt.isDeclaration_bound (stmt : Stmt) (frames : Frames) :
    (stmt.bound frames).isDeclaration = stmt.isDeclaration := by
  cases stmt <;> rfl

mutual

/-- **A well-formed statement is well formed when it is bound.** -/
theorem Stmt.WellFormed.bound : ∀ {stmt : Stmt} (frames : Frames), stmt.WellFormed →
    (stmt.bound frames).WellFormed
  | .expression _, frames, h => Expr.WellFormed.bound frames h
  | .print _, frames, h => Expr.WellFormed.bound frames h
  | .variable _ _, _, h => ⟨h.1, h.2.bound _⟩
  | .block _, frames, h => Stmt.wellFormedAll_bound ([] :: frames) h
  | .branch _ consequent _, frames, ⟨condition, ⟨plain, ifSo⟩, ifNot⟩ =>
      ⟨condition.bound frames, ⟨(consequent.isDeclaration_bound frames).trans plain,
        ifSo.bound frames⟩, Stmt.wellFormedElse_bound _ ifNot⟩
  | .loop _ body, frames, ⟨condition, plain, h⟩ =>
      ⟨condition.bound frames, (body.isDeclaration_bound frames).trans plain, h.bound frames⟩
  | .function _ _ _, _, h => ⟨h.1, h.2.1, Stmt.wellFormedAll_bound _ h.2.2⟩
  | .return_ _ _, frames, h => ⟨h.1, h.2.bound frames⟩

lemma Stmt.wellFormedAll_bound : ∀ {stmts : List Stmt} (frames : Frames),
    Stmt.WellFormedAll stmts → Stmt.WellFormedAll (Stmt.boundAll frames stmts)
  | [], _, h => h
  | _ :: _, frames, h => ⟨h.1.bound frames, Stmt.wellFormedAll_bound _ h.2⟩

lemma Stmt.wellFormedElse_bound : ∀ {stmt : Option Stmt} (frames : Frames),
    Stmt.WellFormedElse stmt → Stmt.WellFormedElse (Stmt.bound? frames stmt)
  | none, _, h => h
  | some stmt, frames, h => ⟨(stmt.isDeclaration_bound frames).trans h.1, h.2.bound frames⟩

end

end LoxLang
