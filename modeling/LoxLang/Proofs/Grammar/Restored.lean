import LoxLang.Proofs.Grammar.Passage
import LoxLang.Proofs.Grammar.Written
import Mathlib

/-!
# What is read is written out again

The tokens that were taken for a tree are the tokens of that tree, up to what a tree does not keep of a
token, and the tree is shaped.  A `for` loop is the exception to the first: it is kept as other
statements.

* `Alike` — token lists that differ only in what trees do not keep.
* **`Phrase.Reads.restored`**, **`Passage.Reads.restored`** — the tokens of the tree are alike.
* **`Phrase.Reads.shaped`**, **`Passage.Reads.shaped`** — the tree is shaped.
-/

namespace LoxLang

/-! ## Tokens up to what is kept -/

/-- Token lists that trees do not tell apart. -/
def Alike (left right : List Token) : Prop := left.map Token.plain = right.map Token.plain

lemma Alike.refl (tokens : List Token) : Alike tokens tokens := rfl

lemma Alike.trans {first second third : List Token} (alike : Alike first second)
    (alike' : Alike second third) : Alike first third :=
  Eq.trans alike alike'

lemma Alike.append (front : List Token) {left right : List Token} (alike : Alike left right) :
    Alike (front ++ left) (front ++ right) := by
  rw [Alike, List.map_append, List.map_append, alike]

lemma Alike.cons (token : Token) {left right : List Token} (alike : Alike left right) :
    Alike (token :: left) (token :: right) :=
  alike.append [token]

/-- A token that is always written the same way may be written afresh. -/
lemma Alike.mark {token : Token} {kind : Kind} {left right : List Token} (tokenKind : token.kind = kind)
    (kept : kind ∉ keptKinds) (literal : kind ∉ [Kind.number, .string]) (alike : Alike left right) :
    Alike (token :: left) (kind.mark :: right) := by
  have plain : token.plain = kind.mark.plain := by
    subst tokenKind
    rw [Token.plain, Token.plain, Kind.mark_kind, if_neg kept, if_neg kept, if_neg literal,
      if_neg literal]
  rw [Alike, List.map_cons, List.map_cons, plain, alike]

/-- A literal token is that of its value. -/
lemma plain_literal {token : Token} {value : Constant} (found : Constant.ofToken? token = some value)
    (carries : token.Carries) : token.plain = value.written.plain := by
  rcases token with ⟨kind, lexeme, literal, line⟩
  have kindListed := Phrase.kind_of_constant found
  simp only [Phrase.literalKinds, List.mem_cons, List.not_mem_nil, or_false] at kindListed
  rcases kindListed with rfl | rfl | rfl | rfl | rfl
  · obtain ⟨x, rfl⟩ := carries.1 rfl
    cases found
    rfl
  · obtain ⟨s, rfl⟩ := carries.2 rfl
    cases found
    rfl
  · cases found
    rfl
  · cases found
    rfl
  · cases found
    rfl

/-- Every number carries a number and every quoted text a text. -/
def AllCarry (tokens : List Token) : Prop := ∀ token ∈ tokens, token.Carries

lemma AllCarry.suffix {tokens rest : List Token} (holds : AllCarry tokens) (suffix : rest <:+ tokens) :
    AllCarry rest :=
  fun token mem => holds token (suffix.subset mem)

lemma AllCarry.tail {token : Token} {tokens : List Token} (holds : AllCarry (token :: tokens)) :
    AllCarry tokens :=
  holds.suffix (List.suffix_cons token tokens)

/-! ## Nodes of rows -/

/-- What the row of an operator says about its precedence and its node. -/
lemma node_of_row {level : Level} {tighter : List Level} (suffix : level :: tighter <:+ Level.all)
    {operator : Token} (operatorListed : operator.kind ∈ level.operators) :
    operator.kind.precedence + tighter.length = 6
      ∧ (level.node = .binary ∧ 3 ≤ operator.kind.precedence
        ∨ level.node = .logical ∧ operator.kind ∈ [Kind.keyword .or, .keyword .and]) := by
  rw [← List.mem_tails] at suffix
  simp only [Level.all, List.tails, List.mem_cons, List.cons.injEq, reduceCtorEq,
    List.not_mem_nil, or_false] at suffix
  generalize operator.kind = kind at operatorListed ⊢
  rcases suffix with ⟨rfl, rfl⟩ | ⟨rfl, rfl⟩ | ⟨rfl, rfl⟩ | ⟨rfl, rfl⟩ | ⟨rfl, rfl⟩ | ⟨rfl, rfl⟩ <;>
    simp only [List.mem_cons, List.not_mem_nil, or_false] at operatorListed
  · subst operatorListed
    exact ⟨rfl, Or.inr ⟨rfl, by decide⟩⟩
  · subst operatorListed
    exact ⟨rfl, Or.inr ⟨rfl, by decide⟩⟩
  · rcases operatorListed with rfl | rfl <;> exact ⟨rfl, Or.inl ⟨rfl, by decide⟩⟩
  · rcases operatorListed with rfl | rfl | rfl | rfl <;> exact ⟨rfl, Or.inl ⟨rfl, by decide⟩⟩
  · rcases operatorListed with rfl | rfl <;> exact ⟨rfl, Or.inl ⟨rfl, by decide⟩⟩
  · rcases operatorListed with rfl | rfl <;> exact ⟨rfl, Or.inl ⟨rfl, by decide⟩⟩

lemma written_node {level : Level} (listed : level ∈ Level.all) (left : Expr) (operator : Token)
    (right : Expr) : (level.node left operator right).written
      = left.written ++ (operator :: right.written) := by
  simp only [Level.all, List.mem_cons, List.not_mem_nil, or_false] at listed
  rcases listed with rfl | rfl | rfl | rfl | rfl | rfl <;> rfl

/-! ## Expressions -/

namespace Phrase

variable {phrase : Phrase} {tokens mid rest : List Token} {reports : List SyntaxReport}

/-- The tokens of a phrase are those of its tree, in front of the same rest. -/
def Restores (tokens rest : List Token) : Phrase → Prop
  | assignment value => Alike tokens (value.written ++ rest)
  | operation _ value => Alike tokens (value.written ++ rest)
  | chain _ _ left value => Alike (left.written ++ tokens) (value.written ++ rest)
  | unary value => Alike tokens (value.written ++ rest)
  | calls callee value => Alike (callee.written ++ tokens) (value.written ++ rest)
  | arguments _ values => Alike tokens (Expr.writtenAll values ++ rest)
  | primary value => Alike tokens (value.written ++ rest)

lemma Reads.arguments_ne_nil {count : Nat} {values : List Expr}
    (reads : (arguments count values).Reads tokens reports rest) : values ≠ [] := by
  cases reads with
  | last => simp
  | more => simp

lemma writtenMore_eq {values : List Expr} (differs : values ≠ []) :
    Expr.writtenMore values = Kind.comma.mark :: Expr.writtenAll values := by
  cases values with
  | nil => exact absurd rfl differs
  | cons next others => rfl

/-- **The tokens of an expression are those of its tree.** -/
theorem Reads.restored (reads : phrase.Reads tokens reports rest) :
    reports = [] → phrase.Proper → AllCarry tokens → phrase.Restores tokens rest := by
  induction reads with
  | plain _ ih => exact fun silent _ carry => ih silent List.suffix_rfl carry
  | assign target equals _ _ ihvalue =>
      intro silent _ carry
      obtain ⟨-, rfl, rfl, nameKind⟩ := target.name_of_variable
      have valueAlike := ihvalue silent trivial carry.tail.tail
      exact Alike.cons _ (Alike.mark equals (by decide) (by decide) valueAlike)
  | mistaken =>
      intro silent
      simp at silent
  | operand _ ih => exact fun silent _ carry => ih silent trivial carry
  | row leftShaped _ ihleft ihchain =>
      intro silent levels carry
      obtain ⟨rfl, rfl⟩ := List.append_eq_nil_iff.mp silent
      have first := ihleft rfl ((List.suffix_cons _ _).trans levels) carry
      exact first.trans (ihchain rfl levels (carry.suffix leftShaped.opens.suffix))
  | alone => exact fun _ _ _ => Alike.refl _
  | @link level tighter left operator right value _ mid _ _ _ operatorListed rightShaped _ ihright
      ihchain =>
      intro silent levels carry
      obtain ⟨rfl, rfl⟩ := List.append_eq_nil_iff.mp silent
      have next := ihright rfl ((List.suffix_cons _ _).trans levels) carry.tail
      have chain := ihchain rfl levels (carry.tail.suffix rightShaped.opens.suffix)
      rw [Restores, written_node (levels.subset (by simp)), List.append_assoc,
        List.cons_append] at chain
      exact ((next.cons operator).append left.written).trans chain
  | sign _ _ ih => exact fun silent _ carry => (ih silent trivial carry.tail).cons _
  | callee calleeShaped _ ihcallee ihcalls =>
      intro silent _ carry
      obtain ⟨rfl, rfl⟩ := List.append_eq_nil_iff.mp silent
      have first := ihcallee rfl trivial carry
      exact first.trans (ihcalls rfl trivial (carry.suffix calleeShaped.opens.suffix))
  | uncalled => exact fun _ _ _ => Alike.refl _
  | @calledBare callee opening paren value tokens _ _ openingKind _ _ ih =>
      intro silent _ carry
      have calls := ih silent trivial carry.tail.tail
      rw [Restores, Expr.written, Expr.writtenAll, List.append_assoc] at calls
      exact ((Alike.mark openingKind (by decide) (by decide) (Alike.refl (paren :: tokens))).append
        callee.written).trans calls
  | @called callee opening paren values value _ mid _ _ _ openingKind arguments _ _ iharguments
      ihcalls =>
      intro silent _ carry
      obtain ⟨rfl, rfl⟩ := List.append_eq_nil_iff.mp silent
      have list := iharguments rfl trivial carry.tail
      have calls := ihcalls rfl trivial (carry.tail.suffix arguments.opens.suffix).tail
      rw [Restores, Expr.written, List.append_assoc, List.cons_append, List.append_assoc,
        List.singleton_append] at calls
      exact ((Alike.mark openingKind (by decide) (by decide) list).append callee.written).trans calls
  | last _ ih =>
      intro silent _ carry
      obtain ⟨-, valueAlike⟩ := List.append_eq_nil_iff.mp silent
      have lastAlike := ih valueAlike trivial carry
      rw [Restores, Expr.writtenAll, Expr.writtenMore, List.append_nil]
      exact lastAlike
  | @more _ value values comma _ mid _ _ _ valueAlike commaKind valuesAlike ihvalue ihvalues =>
      intro silent _ carry
      obtain ⟨-, parts⟩ := List.append_eq_nil_iff.mp silent
      obtain ⟨rfl, rfl⟩ := List.append_eq_nil_iff.mp parts
      have first := ihvalue rfl trivial carry
      have others := ihvalues rfl trivial (carry.suffix valueAlike.opens.suffix).tail
      have commas := Alike.mark commaKind (by decide) (by decide) others
      rw [Restores, Expr.writtenAll, writtenMore_eq valuesAlike.arguments_ne_nil, List.append_assoc,
        List.cons_append]
      exact first.trans (commas.append value.written)
  | @literal token value rest valueAlike =>
      intro _ _ carry
      have samePlain := plain_literal valueAlike (carry token (by simp))
      rw [Restores, Expr.written, List.singleton_append, Alike, List.map_cons, List.map_cons, samePlain]
  | name => exact fun _ _ _ => Alike.refl _
  | @group opening closing inner _ _ rest openingKind _ closingKind ih =>
      intro silent _ carry
      have innerAlike := ih silent trivial carry.tail
      have endAlike := Alike.mark closingKind (by decide) (by decide) (Alike.refl rest)
      rw [Restores, Expr.written, List.cons_append, List.append_assoc]
      exact Alike.mark openingKind (by decide) (by decide)
        (innerAlike.trans (endAlike.append inner.written))

/-- The tree of a phrase is shaped, and binds as tight as the place of the phrase asks for. -/
def Shapes : Phrase → Prop
  | assignment value => value.Shaped
  | operation levels value => value.Shaped ∧ 7 ≤ value.rank + levels.length
  | chain _ tighter left value => left.Shaped ∧ 6 ≤ left.rank + tighter.length →
      value.Shaped ∧ 6 ≤ value.rank + tighter.length
  | unary value => value.Shaped ∧ 7 ≤ value.rank
  | calls callee value => callee.Shaped ∧ 8 ≤ callee.rank → value.Shaped ∧ 8 ≤ value.rank
  | arguments count values => Expr.ShapedAll values ∧ count + values.length ≤ maxArguments
  | primary value => value.Shaped ∧ 9 ≤ value.rank

lemma shaped_node {level : Level} {tighter : List Level} (levels : level :: tighter <:+ Level.all)
    {left right : Expr} {operator : Token} (operatorListed : operator.kind ∈ level.operators)
    (leftShaped : left.Shaped ∧ 6 ≤ left.rank + tighter.length)
    (rightShaped : right.Shaped ∧ 7 ≤ right.rank + tighter.length) :
    (level.node left operator right).Shaped
      ∧ 6 ≤ (level.node left operator right).rank + tighter.length := by
  obtain ⟨precedence, ⟨node, binary⟩ | ⟨node, logical⟩⟩ := node_of_row levels operatorListed
  · rw [node]
    refine ⟨⟨binary, ?_, ?_, leftShaped.1, rightShaped.1⟩, precedence.ge⟩
    · have := leftShaped.2
      omega
    · have := rightShaped.2
      omega
  · rw [node]
    refine ⟨⟨logical, ?_, ?_, leftShaped.1, rightShaped.1⟩, precedence.ge⟩
    · have := leftShaped.2
      omega
    · have := rightShaped.2
      omega

/-- **The tree of an expression is shaped.** -/
theorem Reads.shaped (reads : phrase.Reads tokens reports rest) :
    reports = [] → phrase.Proper → phrase.Shapes := by
  induction reads with
  | plain _ ih => exact fun silent _ => (ih silent List.suffix_rfl).1
  | assign target _ _ _ ihvalue =>
      intro silent _
      obtain ⟨-, rfl, -, nameKind⟩ := target.name_of_variable
      exact ⟨nameKind, rfl, ihvalue silent trivial⟩
  | mistaken =>
      intro silent
      simp at silent
  | operand _ ih => exact fun silent _ => ih silent trivial
  | row _ _ ihleft ihchain =>
      intro silent levels
      obtain ⟨rfl, rfl⟩ := List.append_eq_nil_iff.mp silent
      obtain ⟨left, rank⟩ := ihleft rfl ((List.suffix_cons _ _).trans levels)
      obtain ⟨value, rank⟩ := ihchain rfl levels ⟨left, by omega⟩
      refine ⟨value, ?_⟩
      rw [List.length_cons]
      omega
  | alone => exact fun _ _ reads => reads
  | link operator _ _ ihright ihchain =>
      intro silent levels left
      obtain ⟨rfl, rfl⟩ := List.append_eq_nil_iff.mp silent
      have right := ihright rfl ((List.suffix_cons _ _).trans levels)
      exact ihchain rfl levels (shaped_node levels operator left right)
  | sign operator _ ih =>
      intro silent _
      obtain ⟨operandShaped, rank⟩ := ih silent trivial
      exact ⟨⟨operator, rank, operandShaped⟩, le_refl 7⟩
  | callee _ _ ihcallee ihcalls =>
      intro silent _
      obtain ⟨rfl, rfl⟩ := List.append_eq_nil_iff.mp silent
      obtain ⟨calleeShaped, rank⟩ := ihcallee rfl trivial
      obtain ⟨value, rank⟩ := ihcalls rfl trivial ⟨calleeShaped, by omega⟩
      exact ⟨value, by omega⟩
  | uncalled => exact fun _ _ reads => reads
  | calledBare _ paren _ ih =>
      intro silent _ calleeShaped
      exact ih silent trivial
        ⟨⟨calleeShaped.2, calleeShaped.1, paren, Nat.zero_le _, trivial⟩, le_refl 8⟩
  | called _ _ paren _ iharguments ihcalls =>
      intro silent _ calleeShaped
      obtain ⟨rfl, rfl⟩ := List.append_eq_nil_iff.mp silent
      obtain ⟨values, length⟩ := iharguments rfl trivial
      rw [Nat.zero_add] at length
      exact ihcalls rfl trivial ⟨⟨calleeShaped.2, calleeShaped.1, paren, length, values⟩, le_refl 8⟩
  | last _ ih =>
      intro silent _
      obtain ⟨few, value⟩ := List.append_eq_nil_iff.mp silent
      exact ⟨⟨ih value trivial, trivial⟩, overfull_eq_nil.mp few⟩
  | more _ _ _ ihvalue ihvalues =>
      intro silent _
      obtain ⟨-, parts⟩ := List.append_eq_nil_iff.mp silent
      obtain ⟨rfl, rfl⟩ := List.append_eq_nil_iff.mp parts
      obtain ⟨others, length⟩ := ihvalues rfl trivial
      refine ⟨⟨ihvalue rfl trivial, others⟩, ?_⟩
      rw [List.length_cons]
      omega
  | literal => exact fun _ _ => ⟨trivial, le_refl 9⟩
  | name token => exact fun _ _ => ⟨⟨token, rfl⟩, le_refl 9⟩
  | group _ _ _ ih => exact fun silent _ => ⟨ih silent trivial, le_refl 9⟩

end Phrase

/-! ## Parts of statements -/

section Parts

variable {tokens rest : List Token} {reports : List SyntaxReport}

lemma Expr.Reads.shaped {value : Expr} (reads : value.Reads tokens [] rest) : value.Shaped :=
  Phrase.Reads.shaped reads rfl trivial

lemma Expr.Reads.restored {value : Expr} (reads : value.Reads tokens [] rest)
    (carry : AllCarry tokens) : Alike tokens (value.written ++ rest) :=
  Phrase.Reads.restored reads rfl trivial carry

lemma ClauseReads.restored {value : Option Expr} (reads : ClauseReads value tokens [] rest)
    (carry : AllCarry tokens) : Alike tokens (Expr.written? value ++ rest) := by
  cases reads with
  | omitted => exact Alike.refl _
  | given valueAlike => exact valueAlike.restored carry

lemma ClauseReads.shaped {value : Option Expr} (reads : ClauseReads value tokens [] rest) :
    Expr.Shaped? value := by
  cases reads with
  | omitted => trivial
  | given valueAlike => exact valueAlike.shaped

/-- The mark that ends a statement, behind an expression. -/
lemma Alike.ended {front : List Token} {token : Token} {kind : Kind} (tokenKind : token.kind = kind)
    (kept : kind ∉ keptKinds) (literal : kind ∉ [Kind.number, .string])
    (alike : Alike tokens (front ++ token :: rest)) : Alike tokens (front ++ [kind.mark] ++ rest) := by
  rw [List.append_assoc]
  exact alike.trans ((Alike.mark tokenKind kept literal (Alike.refl rest)).append front)

lemma VariableReads.restored {stmt : Stmt} {keyword : Token}
    (keywordKind : keyword.kind = .keyword .var) (reads : VariableReads stmt tokens [] rest)
    (carry : AllCarry tokens) : Alike (keyword :: tokens) (stmt.written ++ rest) := by
  cases reads with
  | bare name semicolon =>
      refine Alike.mark keywordKind (by decide) (by decide) (Alike.cons _ ?_)
      exact (Alike.refl ([] ++ _ :: _)).ended semicolon (by decide) (by decide)
  | initialized name equals value semicolon =>
      refine Alike.mark keywordKind (by decide) (by decide) (Alike.cons _ ?_)
      have ended := (value.restored carry.tail.tail).ended semicolon (by decide) (by decide)
      exact Alike.mark equals (by decide) (by decide) ended

lemma VariableReads.shaped {stmt : Stmt} (reads : VariableReads stmt tokens [] rest) :
    stmt.Shaped := by
  cases reads with
  | bare name => exact ⟨name, trivial⟩
  | initialized name _ value => exact ⟨name, value.shaped⟩

lemma ConditionReads.restored {value : Expr} (reads : ConditionReads value tokens [] rest)
    (carry : AllCarry tokens) :
    Alike tokens (Kind.leftParen.mark :: (value.written ++ (Kind.rightParen.mark :: rest))) := by
  cases reads with
  | condition opening valueAlike closing =>
      refine Alike.mark opening (by decide) (by decide) ?_
      have endAlike := Alike.mark closing (by decide) (by decide) (Alike.refl rest)
      exact (valueAlike.restored carry.tail).trans (endAlike.append value.written)

lemma ConditionReads.shaped {value : Expr} (reads : ConditionReads value tokens [] rest) :
    value.Shaped := by
  cases reads with
  | condition _ valueAlike _ => exact valueAlike.shaped

lemma ParametersRead.restored {count : Nat} {names : List Token}
    (reads : ParametersRead count names tokens reports rest) :
    Alike tokens (names.intersperse Kind.comma.mark ++ rest) := by
  induction reads with
  | last => exact Alike.refl _
  | @more _ name names comma _ _ _ _ commaKind namesKind ih =>
      cases names with
      | nil => cases namesKind
      | cons next names => exact Alike.cons _ (Alike.mark commaKind (by decide) (by decide) ih)

lemma ParametersRead.shaped {count : Nat} {names : List Token}
    (reads : ParametersRead count names tokens reports rest) : reports = [] →
      (∀ name ∈ names, name.kind = .identifier) ∧ count + names.length ≤ maxArguments := by
  induction reads with
  | last nameKind =>
      intro silent
      exact ⟨by simpa using nameKind, overfull_eq_nil.mp silent⟩
  | more nameKind _ _ ih =>
      intro silent
      obtain ⟨-, rfl⟩ := List.append_eq_nil_iff.mp silent
      obtain ⟨namesKind, length⟩ := ih rfl
      refine ⟨List.forall_mem_cons.mpr ⟨nameKind, namesKind⟩, ?_⟩
      rw [List.length_cons]
      omega

lemma SignatureReads.restored {name : Token} {names : List Token}
    (reads : SignatureReads name names tokens reports rest) :
    Alike tokens (name :: Kind.leftParen.mark :: (names.intersperse Kind.comma.mark
      ++ (Kind.rightParen.mark :: Kind.leftBrace.mark :: rest))) := by
  have ends : ∀ {closing brace : Token}, closing.kind = .rightParen → brace.kind = .leftBrace →
      Alike (closing :: brace :: rest) (Kind.rightParen.mark :: Kind.leftBrace.mark :: rest) :=
    fun closingKind braceKind => Alike.mark closingKind (by decide) (by decide)
      (Alike.mark braceKind (by decide) (by decide) (Alike.refl rest))
  cases reads with
  | bare _ opening closingKind braceKind =>
      refine Alike.cons _ (Alike.mark opening (by decide) (by decide) ?_)
      exact ends closingKind braceKind
  | listed _ opening namesKind closingKind braceKind =>
      refine Alike.cons _ (Alike.mark opening (by decide) (by decide) ?_)
      exact namesKind.restored.trans ((ends closingKind braceKind).append _)

lemma SignatureReads.shaped {name : Token} {names : List Token}
    (reads : SignatureReads name names tokens [] rest) :
    name.kind = .identifier ∧ (∀ parameter ∈ names, parameter.kind = .identifier)
      ∧ names.length ≤ maxArguments := by
  cases reads with
  | bare nameKind => exact ⟨nameKind, by simp, Nat.zero_le _⟩
  | listed nameKind _ namesKind =>
      obtain ⟨all, length⟩ := namesKind.shaped rfl
      rw [Nat.zero_add] at length
      exact ⟨nameKind, all, length⟩

lemma InitializerReads.shaped {first : Option Stmt} (reads : InitializerReads first tokens [] rest) :
    ∀ stmt ∈ first, stmt.Shaped := by
  cases reads with
  | omitted => simp
  | declared _ stmtReads => simpa using stmtReads.shaped
  | evaluated value _ => simpa [Stmt.Shaped] using value.shaped

/-- A `for` loop is kept as blocks and a loop that are shaped where its clauses are. -/
lemma Stmt.shaped_forLoop {initializer : Option Stmt} {condition increment : Option Expr}
    {body : Stmt} (initializerShaped : ∀ stmt ∈ initializer, stmt.Shaped)
    (conditionShaped : Expr.Shaped? condition) (incrementShaped : Expr.Shaped? increment)
    (statement : body.isDeclaration = false) (bodyShaped : body.Shaped) :
    (Stmt.forLoop initializer condition increment body).Shaped
      ∧ (Stmt.forLoop initializer condition increment body).isDeclaration = false
      ∧ ((Stmt.forLoop initializer condition increment body).isOpen = true → body.isOpen = true) := by
  have tested : (condition.getD (.literal (.bool true))).Shaped := by
    cases condition with
    | none => trivial
    | some value => exact conditionShaped
  cases initializer with
  | none =>
      cases increment with
      | none => exact ⟨⟨tested, statement, bodyShaped⟩, rfl, id⟩
      | some step =>
          exact ⟨⟨tested, rfl, bodyShaped, incrementShaped, trivial⟩, rfl, fun opens => by cases opens⟩
  | some first =>
      have firstShaped := initializerShaped first rfl
      cases increment with
      | none =>
          exact ⟨⟨firstShaped, ⟨tested, statement, bodyShaped⟩, trivial⟩, rfl,
            fun opens => by cases opens⟩
      | some step =>
          exact ⟨⟨firstShaped, ⟨tested, rfl, bodyShaped, incrementShaped, trivial⟩, trivial⟩, rfl,
            fun opens => by cases opens⟩

lemma ForReads.shaped {initializer : Option Stmt} {condition increment : Option Expr}
    (reads : ForReads initializer condition increment tokens reports rest) : reports = [] →
      (∀ stmt ∈ initializer, stmt.Shaped) ∧ Expr.Shaped? condition ∧ Expr.Shaped? increment := by
  cases reads with
  | clauses _ initializerShaped conditionShaped _ incrementShaped _ =>
      intro silent
      obtain ⟨rfl, parts⟩ := List.append_eq_nil_iff.mp silent
      obtain ⟨rfl, rfl⟩ := List.append_eq_nil_iff.mp parts
      exact ⟨initializerShaped.shaped, conditionShaped.shaped, incrementShaped.shaped⟩

end Parts

/-! ## Statements -/

/-- Tokens as they come from a source, none of them a `for`. -/
def Restorable (tokens : List Token) : Prop :=
  ∀ token ∈ tokens, token.kind ≠ .keyword .for_ ∧ token.Carries

lemma Restorable.suffix {tokens rest : List Token} (restorable : Restorable tokens)
    (suffix : rest <:+ tokens) : Restorable rest :=
  fun token mem => restorable token (suffix.subset mem)

lemma Restorable.tail {token : Token} {tokens : List Token} (restorable : Restorable (token :: tokens)) :
    Restorable tokens :=
  restorable.suffix (List.suffix_cons token tokens)

lemma Restorable.carry {tokens : List Token} (restorable : Restorable tokens) : AllCarry tokens :=
  fun token mem => (restorable token mem).2

namespace Passage

variable {passage : Passage} {tokens rest : List Token} {reports : List SyntaxReport}

/-- The tokens of a passage are those of its trees, in front of the same rest. -/
def Restores (tokens rest : List Token) : Passage → Prop
  | declaration stmt => Alike tokens (stmt.written ++ rest)
  | statement _ stmt => Alike tokens (stmt.written ++ rest)
  | declarations stmts => Alike tokens (Stmt.writtenAll stmts ++ rest)

/-- **The tokens of a passage are those of its trees**, unless a `for` loop is among them. -/
theorem Reads.restored (reads : passage.Reads tokens reports rest) :
    reports = [] → Restorable tokens → passage.Restores tokens rest := by
  induction reads with
  | @function _ name names _ _ _ _ rest _ _ keyword signature _ closing ih =>
      intro silent all
      obtain ⟨rfl, rfl⟩ := List.append_eq_nil_iff.mp silent
      have body := ih rfl (all.tail.suffix signature.suffix)
      have endAlike := Alike.mark closing (by decide) (by decide) (Alike.refl rest)
      have braces := (body.trans (endAlike.append _)).cons Kind.leftBrace.mark
      have parameters := (braces.cons Kind.rightParen.mark).append
        (names.intersperse Kind.comma.mark)
      rw [Restores]
      simp only [Stmt.written, List.cons_append, List.append_assoc, List.nil_append]
      refine Alike.mark keyword (by decide) (by decide) (signature.restored.trans ?_)
      exact (parameters.cons Kind.leftParen.mark).cons name
  | «variable» keyword stmt =>
      rintro rfl all
      exact stmt.restored keyword all.tail.carry
  | plain _ ih => exact ih
  | expression value semicolon =>
      rintro rfl all
      exact (value.restored all.carry).ended semicolon (by decide) (by decide)
  | print keyword value semicolon =>
      rintro rfl all
      have ended := (value.restored all.tail.carry).ended semicolon (by decide) (by decide)
      exact Alike.mark keyword (by decide) (by decide) ended
  | return_ _ value semicolon =>
      rintro rfl all
      have ended := (value.restored all.tail.carry).ended semicolon (by decide) (by decide)
      exact Alike.cons _ ended
  | block opening _ closing ih =>
      rintro rfl all
      have ended := Alike.ended closing (by decide) (by decide) (ih rfl all.tail)
      exact Alike.mark opening (by decide) (by decide) ended
  | @loop _ condition _ _ _ _ _ _ _ keyword conditionShaped _ ih =>
      intro silent all
      obtain ⟨rfl, rfl⟩ := List.append_eq_nil_iff.mp silent
      have body := ih rfl (all.tail.suffix conditionShaped.suffix)
      have tested := (body.cons Kind.rightParen.mark).append condition.written
      rw [Restores]
      simp only [Stmt.written, List.cons_append, List.append_assoc]
      refine Alike.mark keyword (by decide) (by decide) ?_
      exact (conditionShaped.restored all.tail.carry).trans (tested.cons Kind.leftParen.mark)
  | forLoop keyword _ _ _ =>
      intro _ all
      exact absurd keyword (all _ (by simp)).1
  | @branch _ condition _ _ _ _ _ _ _ keyword conditionShaped _ ih =>
      intro silent all
      obtain ⟨rfl, rfl⟩ := List.append_eq_nil_iff.mp silent
      have consequentAlike := ih rfl (all.tail.suffix conditionShaped.suffix)
      have tested := (consequentAlike.cons Kind.rightParen.mark).append condition.written
      rw [Restores]
      simp only [Stmt.written, Stmt.writtenElse, List.cons_append, List.append_assoc,
        List.append_nil]
      refine Alike.mark keyword (by decide) (by decide) ?_
      exact (conditionShaped.restored all.tail.carry).trans (tested.cons Kind.leftParen.mark)
  | @branchElse _ condition consequent _ _ _ _ _ _ _ _ _ _ keyword conditionShaped consequentAlike
      otherwise _ ihconsequent ihalternative =>
      intro silent all
      obtain ⟨rfl, parts⟩ := List.append_eq_nil_iff.mp silent
      obtain ⟨rfl, rfl⟩ := List.append_eq_nil_iff.mp parts
      have midCarries := all.tail.suffix conditionShaped.suffix
      have far := (midCarries.suffix consequentAlike.opens.suffix).tail
      have otherwiseAlike := Alike.mark otherwise (by decide) (by decide) (ihalternative rfl far)
      have branches := (ihconsequent rfl midCarries).trans (otherwiseAlike.append consequent.written)
      have tested := (branches.cons Kind.rightParen.mark).append condition.written
      rw [Restores]
      simp only [Stmt.written, Stmt.writtenElse, List.cons_append, List.append_assoc]
      refine Alike.mark keyword (by decide) (by decide) ?_
      exact (conditionShaped.restored all.tail.carry).trans (tested.cons Kind.leftParen.mark)
  | done => exact fun _ _ => Alike.refl _
  | @next first _ _ _ _ _ _ firstShaped _ ihfirst ihothers =>
      intro silent all
      obtain ⟨rfl, rfl⟩ := List.append_eq_nil_iff.mp silent
      have others := ihothers rfl (all.suffix firstShaped.opens.suffix)
      rw [Restores, Stmt.writtenAll, List.append_assoc]
      exact (ihfirst rfl all).trans (others.append first.written)

/-- The trees of a passage are shaped, and open only where the passage is. -/
def Shapes : Passage → Prop
  | declaration stmt => stmt.Shaped
  | statement isOpen stmt =>
    stmt.Shaped ∧ stmt.isDeclaration = false ∧ (stmt.isOpen = true → isOpen = true)
  | declarations stmts => Stmt.ShapedAll stmts

/-- **The trees of a passage are shaped.** -/
theorem Reads.shaped (reads : passage.Reads tokens reports rest) : reports = [] → passage.Shapes := by
  induction reads with
  | function _ signature _ _ ih =>
      intro silent
      obtain ⟨rfl, rfl⟩ := List.append_eq_nil_iff.mp silent
      obtain ⟨name, names, length⟩ := signature.shaped
      exact ⟨name, names, length, ih rfl⟩
  | «variable» _ stmt =>
      rintro rfl
      exact stmt.shaped
  | plain _ ih => exact fun silent => (ih silent).1
  | expression value _ =>
      rintro rfl
      exact ⟨value.shaped, rfl, fun opens => by cases opens⟩
  | print _ value _ =>
      rintro rfl
      exact ⟨value.shaped, rfl, fun opens => by cases opens⟩
  | return_ keyword value _ =>
      rintro rfl
      exact ⟨⟨keyword, value.shaped⟩, rfl, fun opens => by cases opens⟩
  | block _ _ _ ih => exact fun silent => ⟨ih silent, rfl, fun opens => by cases opens⟩
  | loop _ condition _ ih =>
      intro silent
      obtain ⟨rfl, rfl⟩ := List.append_eq_nil_iff.mp silent
      obtain ⟨body, statement, opens⟩ := ih rfl
      exact ⟨⟨condition.shaped, statement, body⟩, rfl, opens⟩
  | forLoop _ clauses _ ih =>
      intro silent
      obtain ⟨rfl, rfl⟩ := List.append_eq_nil_iff.mp silent
      obtain ⟨body, statement, opens⟩ := ih rfl
      obtain ⟨initializer, condition, increment⟩ := clauses.shaped rfl
      obtain ⟨loopShaped, samePlain, last⟩ :=
        Stmt.shaped_forLoop initializer condition increment statement body
      exact ⟨loopShaped, samePlain, opens ∘ last⟩
  | branch _ condition _ ih =>
      intro silent
      obtain ⟨rfl, rfl⟩ := List.append_eq_nil_iff.mp silent
      obtain ⟨consequent, statement, _⟩ := ih rfl
      refine ⟨⟨condition.shaped, statement, consequent, fun some_ => ?_, trivial⟩, rfl,
        fun _ => rfl⟩
      cases some_
  | branchElse _ condition _ _ _ ihconsequent ihalternative =>
      intro silent
      obtain ⟨rfl, parts⟩ := List.append_eq_nil_iff.mp silent
      obtain ⟨rfl, rfl⟩ := List.append_eq_nil_iff.mp parts
      obtain ⟨consequent, statement, closed⟩ := ihconsequent rfl
      obtain ⟨alternative, other, opens⟩ := ihalternative rfl
      refine ⟨⟨condition.shaped, statement, consequent, fun _ => ?_, other, alternative⟩,
        rfl, opens⟩
      exact Bool.eq_false_iff.mpr fun truth => Bool.false_ne_true (closed truth)
  | done => exact fun _ => trivial
  | next _ _ ihfirst ihothers =>
      intro silent
      obtain ⟨rfl, rfl⟩ := List.append_eq_nil_iff.mp silent
      exact ⟨ihfirst rfl, ihothers rfl⟩

end Passage

end LoxLang
