import LoxLang.Proofs.Grammar.Passage
import LoxLang.Proofs.Grammar.Written
import Mathlib

/-!
# What is written out reads as the tree

The tokens of a shaped tree read as that tree, whatever is behind them.

A chain groups to the left, and so does a row of calls, while a tree has its last operator or its last
call outermost.  So a reading of the left operand is taken apart and continued:
`Phrase.Reads.chain_trans` and `Phrase.Reads.calls_trans` put the two parts of a chain together.

* `Expr.Rereads` — the readings that the rank of an expression allows.
* **`Expr.rereads`**, **`Stmt.rereads`** — shaped trees have them.
-/

namespace LoxLang

/-! ## Chains in two parts -/

namespace Phrase

variable {phrase : Phrase} {tokens mid rest : List Token} {reports before after : List SyntaxReport}

/-- What a chain or a row of calls made can be made more of. -/
def Continues (tokens : List Token) (reports : List SyntaxReport) (rest : List Token) :
    Phrase → Prop
  | chain level tighter left value => ∀ whole after behind,
      (chain level tighter value whole).Reads rest after behind →
      (chain level tighter left whole).Reads tokens (reports ++ after) behind
  | calls callee value => ∀ whole after behind,
      (calls value whole).Reads rest after behind →
      (calls callee whole).Reads tokens (reports ++ after) behind
  | _ => True

lemma Reads.continues (reads : phrase.Reads tokens reports rest) :
    phrase.Continues tokens reports rest := by
  induction reads with
  | plain | assign | mistaken | operand | row | sign | callee | last | more | literal | name
  | group => trivial
  | alone => exact fun _ _ _ reads => reads
  | link operator right _ _ ih =>
      intro whole after behind reads
      rw [List.append_assoc]
      exact .link operator right (ih whole after behind reads)
  | uncalled => exact fun _ _ _ reads => reads
  | calledBare opening paren _ ih =>
      intro whole after behind reads
      exact .calledBare opening paren (ih whole after behind reads)
  | called opening arguments paren _ _ ih =>
      intro whole after behind reads
      rw [List.append_assoc]
      exact .called opening arguments paren (ih whole after behind reads)

lemma Reads.chain_trans {level : Level} {tighter : List Level} {left value whole : Expr}
    (reads : (chain level tighter left value).Reads tokens before mid)
    (more : (chain level tighter value whole).Reads mid after rest) :
    (chain level tighter left whole).Reads tokens (before ++ after) rest :=
  reads.continues whole after rest more

lemma Reads.calls_trans {callee value whole : Expr}
    (reads : (calls callee value).Reads tokens before mid)
    (more : (calls value whole).Reads mid after rest) :
    (calls callee whole).Reads tokens (before ++ after) rest :=
  reads.continues whole after rest more

/-- An operand with one more operator and operand behind it. -/
lemma Reads.operated {level : Level} {tighter : List Level} {left right : Expr} {operator : Token}
    (reads : (operation (level :: tighter) left).Reads tokens before (operator :: mid))
    (operatorListed : operator.kind ∈ level.operators)
    (rightReads : (operation tighter right).Reads mid after rest) :
    (operation (level :: tighter) (level.node left operator right)).Reads tokens
      (before ++ after) rest := by
  cases reads with
  | row first chainReads =>
      have last := Reads.link operatorListed rightReads
        (Reads.alone : (chain level tighter (level.node left operator right) _).Reads rest [] rest)
      rw [List.append_nil] at last
      rw [List.append_assoc]
      exact .row first (chainReads.chain_trans last)

/-- What is an operand of some rows is one of looser rows. -/
lemma Reads.loosen {tighter : List Level} {value : Expr}
    (reads : (operation tighter value).Reads tokens reports rest) (looser : List Level) :
    (operation (looser ++ tighter) value).Reads tokens reports rest := by
  induction looser with
  | nil => exact reads
  | cons level looser ih =>
      have row : (operation (level :: (looser ++ tighter)) value).Reads _ _ _ := .row ih .alone
      rwa [List.append_nil] at row

end Phrase

/-! ## Expressions -/

/-- The tokens of an expression read as it, and as an operand where its rank allows one. -/
structure Expr.Rereads (value : Expr) : Prop where
  whole : ∀ rest, value.Reads (value.written ++ rest) [] rest
  operand : ∀ depth < value.rank, ∀ rest,
    (Phrase.operation (Level.all.drop depth) value).Reads (value.written ++ rest) [] rest
  unary : 6 < value.rank → ∀ rest, (Phrase.unary value).Reads (value.written ++ rest) [] rest
  calls : 7 < value.rank → ∀ rest, ∃ callee mid,
    (Phrase.primary callee).Reads (value.written ++ rest) [] mid
      ∧ (Phrase.calls callee value).Reads mid [] rest

namespace Expr.Rereads

variable {value : Expr}

/-- It is enough to read an operation on its own row. -/
lemma of_operation {depth : Nat} (rank : value.rank = depth + 1) (bounded : depth < 6)
    (all : ∀ rest, (Phrase.operation (Level.all.drop depth) value).Reads
      (value.written ++ rest) [] rest) : value.Rereads := by
  have looserReads : ∀ looser < value.rank, ∀ rest,
      (Phrase.operation (Level.all.drop looser) value).Reads (value.written ++ rest) [] rest := by
    intro looser lt rest
    have split : Level.all.drop looser
        = (Level.all.drop looser).take (depth - looser) ++ Level.all.drop depth := by
      have drop : Level.all.drop depth = (Level.all.drop looser).drop (depth - looser) := by
        rw [List.drop_drop]
        congr 1
        omega
      rw [drop, List.take_append_drop]
    rw [split]
    exact (all rest).loosen _
  constructor
  case whole => exact fun rest => .plain (looserReads 0 (by omega) rest)
  case operand => exact looserReads
  case unary => exact fun rank' => by omega
  case calls => exact fun rank' => by omega

lemma operand_of_unary (all : ∀ rest, (Phrase.unary value).Reads (value.written ++ rest) [] rest)
    (levels : List Level) (rest : List Token) :
    (Phrase.operation levels value).Reads (value.written ++ rest) [] rest := by
  have loose := (Phrase.Reads.operand (all rest)).loosen levels
  rwa [List.append_nil] at loose

lemma of_unary (rank : value.rank = 7)
    (all : ∀ rest, (Phrase.unary value).Reads (value.written ++ rest) [] rest) : value.Rereads := by
  constructor
  case whole => exact fun rest => .plain (operand_of_unary all Level.all rest)
  case operand => exact fun depth _ rest => operand_of_unary all _ rest
  case unary => exact fun _ => all
  case calls => exact fun rank' => by omega

lemma of_calls (all : ∀ rest, ∃ callee mid,
      (Phrase.primary callee).Reads (value.written ++ rest) [] mid
        ∧ (Phrase.calls callee value).Reads mid [] rest) : value.Rereads := by
  have unaryReads : ∀ rest, (Phrase.unary value).Reads (value.written ++ rest) [] rest := by
    intro rest
    obtain ⟨callee, mid, calleeRead, callsRead⟩ := all rest
    exact .callee calleeRead callsRead
  constructor
  case whole => exact fun rest => .plain (operand_of_unary unaryReads Level.all rest)
  case operand => exact fun depth _ rest => operand_of_unary unaryReads _ rest
  case unary => exact fun _ => unaryReads
  case calls => exact fun _ => all

lemma of_primary (all : ∀ rest, (Phrase.primary value).Reads (value.written ++ rest) [] rest) :
    value.Rereads :=
  of_calls fun rest => ⟨value, rest, all rest, .uncalled⟩

end Expr.Rereads

/-- The row of an operator, by its precedence. -/
lemma level_of_precedence {kind : Kind} (differs : kind.precedence ≠ 0) :
    ∃ level depth, kind.precedence = depth + 1 ∧ depth < 6
      ∧ Level.all.drop depth = level :: Level.all.drop (depth + 1) ∧ kind ∈ level.operators
      ∧ level.node = (if depth < 2 then .logical else .binary) := by
  cases kind with
  | keyword word =>
      cases word with
      | or => exact ⟨_, 0, rfl, by decide, rfl, by simp, rfl⟩
      | and => exact ⟨_, 1, rfl, by decide, rfl, by simp, rfl⟩
      | _ => exact absurd rfl differs
  | bangEqual | equalEqual => exact ⟨_, 2, rfl, by decide, rfl, by simp, rfl⟩
  | greater | greaterEqual | less | lessEqual => exact ⟨_, 3, rfl, by decide, rfl, by simp, rfl⟩
  | minus | plus => exact ⟨_, 4, rfl, by decide, rfl, by simp, rfl⟩
  | slash | star => exact ⟨_, 5, rfl, by decide, rfl, by simp, rfl⟩
  | _ => exact absurd rfl differs

/-- A binary node reads as one if its operands read as operands of its row and of the next. -/
lemma Expr.Rereads.of_node {level : Level} {depth : Nat} {left right : Expr} {operator : Token}
    (bounded : depth < 6) (drop : Level.all.drop depth = level :: Level.all.drop (depth + 1))
    (operatorListed : operator.kind ∈ level.operators)
    (rank : (level.node left operator right).rank = depth + 1)
    (written : (level.node left operator right).written
      = left.written ++ (operator :: right.written))
    (leftRank : depth < left.rank) (rightRank : depth + 1 < right.rank)
    (ihleft : left.Rereads) (ihright : right.Rereads) :
    (level.node left operator right).Rereads := by
  refine of_operation rank bounded fun rest => ?_
  have first := ihleft.operand depth leftRank (operator :: (right.written ++ rest))
  rw [drop] at first
  have node := first.operated operatorListed (ihright.operand (depth + 1) rightRank rest)
  rw [written, drop, List.append_assoc, List.cons_append]
  exact node

/-- Every one of some expressions reads again. -/
def Expr.RereadsAll (values : List Expr) : Prop := ∀ value ∈ values, value.Rereads

lemma arguments_reread {others : List Expr} : Expr.RereadsAll others →
    ∀ (count : Nat) (first : Expr) (closing : Token) (rest : List Token),
      first.Rereads → count + others.length < maxArguments →
      (Phrase.arguments count (first :: others)).Reads
        (first.written ++ (Expr.writtenMore others ++ closing :: rest)) [] (closing :: rest) := by
  induction others with
  | nil =>
      intro _ count first closing rest firstReads few'
      have last : (Phrase.arguments count [first]).Reads _ _ _ :=
        .last (firstReads.whole (closing :: rest))
      rw [overfull_of_lt (by simpa using few')] at last
      simpa [Expr.writtenMore] using last
  | cons next others ih =>
      intro othersRead count first closing rest firstReads few'
      obtain ⟨nextKind, othersRead⟩ := List.forall_mem_cons.mp othersRead
      rw [List.length_cons] at few'
      have few : count < maxArguments := by omega
      have restReads := ih othersRead (count + 1) next closing rest nextKind (by omega)
      have more := Phrase.Reads.more (firstReads.whole (Kind.comma.mark :: _)) rfl restReads
      rw [overfull_of_lt few] at more
      simpa [Expr.writtenMore] using more

mutual

/-- **A shaped expression reads again**, wherever its rank allows. -/
theorem Expr.rereads : (value : Expr) → value.Shaped → value.Rereads
  | .literal constant, _ => by
      refine .of_primary fun rest => ?_
      exact .literal constant.ofToken?_written
  | .group inner, h => by
      refine .of_primary fun rest => ?_
      have innerReads := (Expr.rereads inner h).whole (Kind.rightParen.mark :: rest)
      rw [Expr.written, List.cons_append, List.append_assoc]
      exact .group rfl innerReads rfl
  | .unary operator operand, h => by
      obtain ⟨operatorListed, rank, operandReads⟩ := h
      have ih := Expr.rereads operand operandReads
      refine .of_unary rfl fun rest => ?_
      exact .sign operatorListed (ih.unary rank rest)
  | .binary left operator right, h => by
      obtain ⟨precedence, leftRank, rightReads, shapedleft, shapedright⟩ := h
      obtain ⟨level, depth, bounded, few, drop, kind, node⟩ :=
        level_of_precedence (show operator.kind.precedence ≠ 0 by omega)
      have binary : level.node = .binary := by rw [node, if_neg (by omega)]
      rw [← binary]
      refine .of_node few drop kind ?_ ?_ (by omega) (by omega)
        (Expr.rereads left shapedleft) (Expr.rereads right shapedright)
      · rw [binary]
        exact bounded
      · rw [binary, Expr.written]
  | .logical left operator right, h => by
      obtain ⟨operatorListed, leftRank, rightReads, shapedleft, shapedright⟩ := h
      have precedence : operator.kind.precedence = 1 ∨ operator.kind.precedence = 2 := by
        simp only [List.mem_cons, List.not_mem_nil, or_false] at operatorListed
        rcases operatorListed with same | same <;> simp [same, Kind.precedence]
      obtain ⟨level, depth, bounded, few, drop, kind, node⟩ :=
        level_of_precedence (show operator.kind.precedence ≠ 0 by omega)
      have logical : level.node = .logical := by rw [node, if_pos (by omega)]
      rw [← logical]
      refine .of_node few drop kind ?_ ?_ (by omega) (by omega)
        (Expr.rereads left shapedleft) (Expr.rereads right shapedright)
      · rw [logical]
        exact bounded
      · rw [logical, Expr.written]
  | .variable name hops, h => by
      obtain ⟨nameKind, rfl⟩ := h
      exact .of_primary fun rest => .name nameKind
  | .assign name value hops, h => by
      obtain ⟨nameKind, rfl, valueRead⟩ := h
      have ih := Expr.rereads value valueRead
      constructor
      case whole => exact fun rest => .assign (.of_name nameKind Level.all) rfl (ih.whole rest)
      case operand => exact fun depth bounded => absurd bounded (Nat.not_lt_zero depth)
      case unary => exact fun rank => absurd rank (Nat.not_lt_zero 6)
      case calls => exact fun rank => absurd rank (Nat.not_lt_zero 7)
  | .call callee paren arguments, h => by
      obtain ⟨rank, calleeRead, parenKind, length, argumentsShaped⟩ := h
      have ih := Expr.rereads callee calleeRead
      have ihall := Expr.rereadsAll arguments argumentsShaped
      refine .of_calls fun rest => ?_
      cases arguments with
      | nil =>
          obtain ⟨primary, mid, primaryReads, callsRead⟩ :=
            ih.calls (by omega) (Kind.leftParen.mark :: paren :: rest)
          refine ⟨primary, mid, ?_, callsRead.calls_trans (.calledBare rfl parenKind .uncalled)⟩
          simpa [Expr.written, Expr.writtenAll] using primaryReads
      | cons first others =>
          obtain ⟨firstReads, othersRead⟩ := List.forall_mem_cons.mp ihall
          rw [List.length_cons] at length
          have list := arguments_reread othersRead 0 first paren rest firstReads (by omega)
          obtain ⟨primary, mid, primaryReads, callsRead⟩ :=
            ih.calls (by omega) (Kind.leftParen.mark :: _)
          refine ⟨primary, mid, ?_, callsRead.calls_trans (.called rfl list parenKind .uncalled)⟩
          simpa [Expr.written, Expr.writtenAll] using primaryReads

theorem Expr.rereadsAll : (values : List Expr) → Expr.ShapedAll values → Expr.RereadsAll values
  | [], _ => by simp [Expr.RereadsAll]
  | first :: others, h => by
      have firstReads := Expr.rereads first h.1
      have othersRead := Expr.rereadsAll others h.2
      exact List.forall_mem_cons.mpr ⟨firstReads, othersRead⟩

end

/-! ## Statements -/

lemma clause_reread {value : Option Expr} (shaped : Expr.Shaped? value) (rest : List Token) :
    ClauseReads value (Expr.written? value ++ rest) [] rest := by
  cases value with
  | none => exact .omitted
  | some value => exact .given ((Expr.rereads value shaped).whole rest)

lemma condition_reread {value : Expr} (shaped : value.Shaped) (rest : List Token) :
    ConditionReads value
      (Kind.leftParen.mark :: (value.written ++ Kind.rightParen.mark :: rest)) [] rest :=
  .condition rfl ((Expr.rereads value shaped).whole _) rfl

lemma variable_reread {name : Token} {initializer : Option Expr} (nameKind : name.kind = .identifier)
    (shaped : Expr.Shaped? initializer) (rest : List Token) :
    VariableReads (.variable name initializer)
      (name :: (Expr.writtenInitializer initializer ++ Kind.semicolon.mark :: rest)) [] rest := by
  cases initializer with
  | none => exact .bare nameKind rfl
  | some value => exact .initialized nameKind rfl ((Expr.rereads value shaped).whole _) rfl

lemma parameters_reread {names : List Token} : ∀ (count : Nat) (first closing : Token)
    (rest : List Token), first.kind = .identifier → (∀ name ∈ names, name.kind = .identifier) →
    count + names.length < maxArguments →
    ParametersRead count (first :: names)
      ((first :: names).intersperse Kind.comma.mark ++ closing :: rest) [] (closing :: rest) := by
  induction names with
  | nil =>
      intro count first closing rest firstReads _ few'
      have last : ParametersRead count [first] (first :: closing :: rest) _ _ := .last firstReads
      rw [overfull_of_lt (by simpa using few')] at last
      exact last
  | cons next names ih =>
      intro count first closing rest firstReads namesKind few'
      obtain ⟨nextKind, namesKind⟩ := List.forall_mem_cons.mp namesKind
      rw [List.length_cons] at few'
      have few : count < maxArguments := by omega
      have restReads := ih (count + 1) next closing rest nextKind namesKind (by omega)
      have more : ParametersRead count (first :: next :: names)
          (first :: Kind.comma.mark :: _) _ _ := .more firstReads rfl restReads
      rw [overfull_of_lt few] at more
      exact more

lemma signature_reread {name : Token} {names : List Token} (nameKind : name.kind = .identifier)
    (namesKind : ∀ parameter ∈ names, parameter.kind = .identifier)
    (length : names.length ≤ maxArguments) (rest : List Token) :
    SignatureReads name names (name :: Kind.leftParen.mark :: (names.intersperse Kind.comma.mark
      ++ Kind.rightParen.mark :: Kind.leftBrace.mark :: rest)) [] rest := by
  cases names with
  | nil => exact .bare nameKind rfl rfl rfl
  | cons first names =>
      obtain ⟨firstReads, namesKind⟩ := List.forall_mem_cons.mp namesKind
      rw [List.length_cons] at length
      exact .listed nameKind rfl (parameters_reread 0 first _ _ firstReads namesKind (by omega)) rfl rfl

/-- The tokens of a statement read as it, among declarations and, unless it is one, elsewhere. -/
structure Stmt.Rereads (stmt : Stmt) : Prop where
  declaration : ∀ rest, (Passage.declaration stmt).Reads (stmt.written ++ rest) [] rest
  statement : stmt.isDeclaration = false → ∀ rest,
    (Passage.statement stmt.isOpen stmt).Reads (stmt.written ++ rest) [] rest

lemma Stmt.Rereads.of_statement {stmt : Stmt} (all : ∀ rest,
    (Passage.statement stmt.isOpen stmt).Reads (stmt.written ++ rest) [] rest) : stmt.Rereads :=
  ⟨fun rest => .plain (all rest), fun _ => all⟩

mutual

/-- **A shaped statement reads again.** -/
theorem Stmt.rereads : (stmt : Stmt) → stmt.Shaped → stmt.Rereads
  | .expression value, h => by
      refine .of_statement fun rest => ?_
      rw [Stmt.written, List.append_assoc]
      exact .expression ((Expr.rereads value h).whole _) rfl
  | .print value, h => by
      refine .of_statement fun rest => ?_
      rw [Stmt.written, List.cons_append, List.append_assoc]
      exact .print rfl ((Expr.rereads value h).whole _) rfl
  | .variable name initializer, h => by
      have variableReads : ∀ rest, (Passage.declaration (.variable name initializer)).Reads
          (Stmt.written (.variable name initializer) ++ rest) [] rest := by
        intro rest
        rw [Stmt.written, List.cons_append, List.cons_append, List.append_assoc]
        exact .variable rfl (variable_reread h.1 h.2 rest)
      exact ⟨variableReads, fun closed_ => by cases closed_⟩
  | .block body, h => by
      refine .of_statement fun rest => ?_
      rw [Stmt.written, List.cons_append, List.append_assoc]
      exact .block rfl (Stmt.rereadsAll body h _) rfl
  | .branch condition consequent none, h => by
      obtain ⟨conditionRead, statement, consequentRead, _, _⟩ := h
      have ih := (Stmt.rereads consequent consequentRead).statement statement
      refine .of_statement fun rest => ?_
      have branch := Passage.Reads.branch (Kind.keyword .if_).mark_kind
        (condition_reread conditionRead _) (ih rest)
      simpa [Stmt.written, Stmt.writtenElse, Stmt.isOpen, Stmt.isOpenElse] using branch
  | .branch condition consequent (some alternative), h => by
      obtain ⟨conditionRead, statement, consequentRead, closed, other, alternativeRead⟩ := h
      have ih := (Stmt.rereads consequent consequentRead).statement statement
      have ihother := (Stmt.rereads alternative alternativeRead).statement other
      rw [closed rfl] at ih
      refine .of_statement fun rest => ?_
      have branch := Passage.Reads.branchElse (Kind.keyword .if_).mark_kind
        (condition_reread conditionRead _) (ih ((Kind.keyword .else_).mark :: _)) rfl (ihother rest)
      simpa [Stmt.written, Stmt.writtenElse, Stmt.isOpen, Stmt.isOpenElse] using branch
  | .loop condition body, h => by
      obtain ⟨conditionRead, statement, bodyRead⟩ := h
      have ih := (Stmt.rereads body bodyRead).statement statement
      refine .of_statement fun rest => ?_
      have loop := Passage.Reads.loop (Kind.keyword .while_).mark_kind
        (condition_reread conditionRead _) (ih rest)
      simpa [Stmt.written, Stmt.isOpen] using loop
  | .function name parameters body, h => by
      obtain ⟨nameKind, parametersRead, length, bodyRead⟩ := h
      have function : ∀ rest, (Passage.declaration (.function name parameters body)).Reads
          (Stmt.written (.function name parameters body) ++ rest) [] rest := by
        intro rest
        have functionReads := Passage.Reads.function (Kind.keyword .fun_).mark_kind
          (signature_reread nameKind parametersRead length _)
          (Stmt.rereadsAll body bodyRead (Kind.rightBrace.mark :: rest)) rfl
        simpa [Stmt.written] using functionReads
      exact ⟨function, fun closed_ => by cases closed_⟩
  | .return_ keyword value, h => by
      refine .of_statement fun rest => ?_
      rw [Stmt.written, List.cons_append, List.append_assoc]
      exact .return_ h.1 (clause_reread h.2 _) rfl

theorem Stmt.rereadsAll : (stmts : List Stmt) → Stmt.ShapedAll stmts → ∀ rest,
    (Passage.declarations stmts).Reads (Stmt.writtenAll stmts ++ rest) [] rest
  | [], _ => fun _ => .done
  | first :: others, h => by
      intro rest
      rw [Stmt.writtenAll, List.append_assoc]
      exact .next ((Stmt.rereads first h.1).declaration _) (Stmt.rereadsAll others h.2 rest)

end

end LoxLang
