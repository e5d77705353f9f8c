import LoxLang.Proofs.Grammar.Phrase
import Mathlib

/-!
# How tokens read as statements

The grammar of statements as a relation between tokens and trees, like `Phrase.Reads` for
expressions.

Whether a statement is *open* — an `else` behind it would still belong to it — is part of what the
tokens are read as, because the tree does not show it: a `for` loop whose body is open is open, and
its tree may be a block.  The statement before an `else` is never open, so every `else` has one `if`.

* `ClauseReads` … `ForReads` — the parts of statements in which no statement stands.
* **`Passage.Reads`** — the readings of statements and declarations.
* `Passage.Reads.opens` — which tokens they start with; `else` and the closing brace are none of them.
* **`Passage.Reads.attach`** — an open statement takes an `else` behind it.
-/

namespace LoxLang

/-- Tokens that read as an expression up to `rest`, with reports. -/
abbrev Expr.Reads (value : Expr) : List Token → List SyntaxReport → List Token → Prop :=
  (Phrase.assignment value).Reads

/-! ## Parts without statements -/

/-- An expression that may be left out. -/
inductive ClauseReads : Option Expr → List Token → List SyntaxReport → List Token → Prop where
  | omitted {rest} : ClauseReads none rest [] rest
  | given {value tokens reports rest} :
      value.Reads tokens reports rest → ClauseReads (some value) tokens reports rest

/-- What follows `var`. -/
inductive VariableReads : Stmt → List Token → List SyntaxReport → List Token → Prop where
  | bare {name semicolon rest} :
      name.kind = .identifier → semicolon.kind = .semicolon →
      VariableReads (.variable name none) (name :: semicolon :: rest) [] rest
  | initialized {name equals value semicolon tokens reports rest} :
      name.kind = .identifier → equals.kind = .equal →
      value.Reads tokens reports (semicolon :: rest) → semicolon.kind = .semicolon →
      VariableReads (.variable name (some value)) (name :: equals :: tokens) reports rest

/-- A condition in parentheses. -/
inductive ConditionReads : Expr → List Token → List SyntaxReport → List Token → Prop where
  | condition {value opening closing tokens reports rest} :
      opening.kind = .leftParen → value.Reads tokens reports (closing :: rest) →
      closing.kind = .rightParen → ConditionReads value (opening :: tokens) reports rest

/-- Parameter names behind `count` others. -/
inductive ParametersRead :
    Nat → List Token → List Token → List SyntaxReport → List Token → Prop where
  | last {count name rest} :
      name.kind = .identifier →
      ParametersRead count [name] (name :: rest)
        (overfull .tooManyParameters count (name :: rest)) rest
  | more {count name names comma tokens reports rest} :
      name.kind = .identifier → comma.kind = .comma →
      ParametersRead (count + 1) names tokens reports rest →
      ParametersRead count (name :: names) (name :: comma :: tokens)
        (overfull .tooManyParameters count (name :: comma :: tokens) ++ reports) rest

/-- A name with parameters, up to the opening brace of the body. -/
inductive SignatureReads :
    Token → List Token → List Token → List SyntaxReport → List Token → Prop where
  | bare {name opening closing brace rest} :
      name.kind = .identifier → opening.kind = .leftParen → closing.kind = .rightParen →
      brace.kind = .leftBrace →
      SignatureReads name [] (name :: opening :: closing :: brace :: rest) [] rest
  | listed {name names opening closing brace tokens reports rest} :
      name.kind = .identifier → opening.kind = .leftParen →
      ParametersRead 0 names tokens reports (closing :: brace :: rest) →
      closing.kind = .rightParen → brace.kind = .leftBrace →
      SignatureReads name names (name :: opening :: tokens) reports rest

/-- The first clause of a `for` loop, with its semicolon. -/
inductive InitializerReads :
    Option Stmt → List Token → List SyntaxReport → List Token → Prop where
  | omitted {semicolon rest} :
      semicolon.kind = .semicolon → InitializerReads none (semicolon :: rest) [] rest
  | declared {keyword stmt tokens reports rest} :
      keyword.kind = .keyword .var → VariableReads stmt tokens reports rest →
      InitializerReads (some stmt) (keyword :: tokens) reports rest
  | evaluated {value semicolon tokens reports rest} :
      value.Reads tokens reports (semicolon :: rest) → semicolon.kind = .semicolon →
      InitializerReads (some (.expression value)) tokens reports rest

/-- The clauses of a `for` loop, in their parentheses. -/
inductive ForReads : Option Stmt → Option Expr → Option Expr →
    List Token → List SyntaxReport → List Token → Prop where
  | clauses {initializer condition increment opening semicolon closing tokens mid far rest
      before between after} :
      opening.kind = .leftParen → InitializerReads initializer tokens before mid →
      ClauseReads condition mid between (semicolon :: far) → semicolon.kind = .semicolon →
      ClauseReads increment far after (closing :: rest) → closing.kind = .rightParen →
      ForReads initializer condition increment (opening :: tokens)
        (before ++ (between ++ after)) rest

section Suffix

variable {tokens rest : List Token} {reports : List SyntaxReport}

lemma Expr.Reads.opens {value : Expr} (reads : value.Reads tokens reports rest) :
    ∃ token mid, tokens = token :: mid ∧ rest <:+ mid ∧ token.kind ∈ Phrase.openingKinds :=
  Phrase.Reads.opens reads

lemma Expr.Reads.suffix {value : Expr} (reads : value.Reads tokens reports rest) : rest <:+ tokens :=
  (Phrase.Reads.opens reads).suffix

/-- The tokens behind the mark that ends a part are behind the part. -/
lemma suffix_behind {token : Token} (suffix : token :: rest <:+ tokens) : rest <:+ tokens :=
  (List.suffix_cons token rest).trans suffix

lemma suffix_ahead {token : Token} (suffix : rest <:+ tokens) : rest <:+ token :: tokens :=
  suffix.trans (List.suffix_cons token tokens)

lemma ClauseReads.suffix {value : Option Expr} (reads : ClauseReads value tokens reports rest) :
    rest <:+ tokens := by
  cases reads with
  | omitted => exact List.suffix_rfl
  | given valueReads => exact valueReads.suffix

lemma VariableReads.suffix {stmt : Stmt} (reads : VariableReads stmt tokens reports rest) :
    rest <:+ tokens := by
  cases reads with
  | bare => exact suffix_ahead (List.suffix_cons _ _)
  | initialized _ _ value _ => exact suffix_ahead (suffix_ahead (suffix_behind value.suffix))

lemma ConditionReads.suffix {value : Expr} (reads : ConditionReads value tokens reports rest) :
    rest <:+ tokens := by
  cases reads with
  | condition _ valueReads _ => exact suffix_ahead (suffix_behind valueReads.suffix)

lemma ParametersRead.suffix {count : Nat} {names : List Token}
    (reads : ParametersRead count names tokens reports rest) : rest <:+ tokens := by
  induction reads with
  | last => exact List.suffix_cons _ _
  | more _ _ _ ih => exact suffix_ahead (suffix_ahead ih)

lemma SignatureReads.suffix {name : Token} {names : List Token}
    (reads : SignatureReads name names tokens reports rest) : rest <:+ tokens := by
  cases reads with
  | bare => exact suffix_ahead (suffix_ahead (suffix_ahead (List.suffix_cons _ _)))
  | listed _ _ namesRead _ _ =>
      exact suffix_ahead (suffix_ahead (suffix_behind (suffix_behind namesRead.suffix)))

lemma InitializerReads.suffix {first : Option Stmt}
    (reads : InitializerReads first tokens reports rest) : rest <:+ tokens := by
  cases reads with
  | omitted => exact List.suffix_cons _ _
  | declared _ stmt => exact suffix_ahead stmt.suffix
  | evaluated value _ => exact suffix_behind value.suffix

lemma ForReads.suffix {initializer : Option Stmt} {condition increment : Option Expr}
    (reads : ForReads initializer condition increment tokens reports rest) : rest <:+ tokens := by
  cases reads with
  | clauses _ initializerReads conditionReads _ incrementReads _ =>
      have far := (suffix_behind incrementReads.suffix).trans (suffix_behind conditionReads.suffix)
      exact suffix_ahead (far.trans initializerReads.suffix)

end Suffix

/-! ## Statements -/

/-- A part of a program and the trees it stands for. -/
inductive Passage where
  | declaration (stmt : Stmt)
  /-- A statement that takes an `else` behind it if it is open. -/
  | statement (isOpen : Bool) (stmt : Stmt)
  | declarations (stmts : List Stmt)

namespace Passage

/-- Tokens that read as a passage up to `rest`, with reports. -/
inductive Reads : Passage → List Token → List SyntaxReport → List Token → Prop where
  | function {keyword name names body closing tokens mid rest before after} :
      keyword.kind = .keyword .fun_ → SignatureReads name names tokens before mid →
      (declarations body).Reads mid after (closing :: rest) → closing.kind = .rightBrace →
      (declaration (.function name names body)).Reads (keyword :: tokens) (before ++ after) rest
  | variable {keyword stmt tokens reports rest} :
      keyword.kind = .keyword .var → VariableReads stmt tokens reports rest →
      (declaration stmt).Reads (keyword :: tokens) reports rest
  | plain {isOpen stmt tokens reports rest} :
      (statement isOpen stmt).Reads tokens reports rest →
      (declaration stmt).Reads tokens reports rest
  | expression {value semicolon tokens reports rest} :
      value.Reads tokens reports (semicolon :: rest) → semicolon.kind = .semicolon →
      (statement false (.expression value)).Reads tokens reports rest
  | print {keyword value semicolon tokens reports rest} :
      keyword.kind = .keyword .print → value.Reads tokens reports (semicolon :: rest) →
      semicolon.kind = .semicolon →
      (statement false (.print value)).Reads (keyword :: tokens) reports rest
  | return_ {keyword value semicolon tokens reports rest} :
      keyword.kind = .keyword .return_ → ClauseReads value tokens reports (semicolon :: rest) →
      semicolon.kind = .semicolon →
      (statement false (.return_ keyword value)).Reads (keyword :: tokens) reports rest
  | block {opening body closing tokens reports rest} :
      opening.kind = .leftBrace → (declarations body).Reads tokens reports (closing :: rest) →
      closing.kind = .rightBrace →
      (statement false (.block body)).Reads (opening :: tokens) reports rest
  | loop {keyword condition isOpen body tokens mid rest before after} :
      keyword.kind = .keyword .while_ → ConditionReads condition tokens before mid →
      (statement isOpen body).Reads mid after rest →
      (statement isOpen (.loop condition body)).Reads (keyword :: tokens) (before ++ after) rest
  | forLoop {keyword initializer condition increment isOpen body tokens mid rest before after} :
      keyword.kind = .keyword .for_ →
      ForReads initializer condition increment tokens before mid →
      (statement isOpen body).Reads mid after rest →
      (statement isOpen (.forLoop initializer condition increment body)).Reads
        (keyword :: tokens) (before ++ after) rest
  | branch {keyword condition isOpen consequent tokens mid rest before after} :
      keyword.kind = .keyword .if_ → ConditionReads condition tokens before mid →
      (statement isOpen consequent).Reads mid after rest →
      (statement true (.branch condition consequent none)).Reads
        (keyword :: tokens) (before ++ after) rest
  | branchElse {keyword condition consequent otherwise isOpen alternative tokens mid far rest
      before between after} :
      keyword.kind = .keyword .if_ → ConditionReads condition tokens before mid →
      (statement false consequent).Reads mid between (otherwise :: far) →
      otherwise.kind = .keyword .else_ →
      (statement isOpen alternative).Reads far after rest →
      (statement isOpen (.branch condition consequent (some alternative))).Reads
        (keyword :: tokens) (before ++ (between ++ after)) rest
  | done {rest} : (declarations []).Reads rest [] rest
  | next {first others tokens mid rest before after} :
      (declaration first).Reads tokens before mid → (declarations others).Reads mid after rest →
      (declarations (first :: others)).Reads tokens (before ++ after) rest

/-! ## The first token -/

/-- The kinds that a statement can start with. -/
def statementKinds : List Kind :=
  [.keyword .for_, .keyword .if_, .keyword .while_, .keyword .return_, .keyword .print, .leftBrace]
    ++ Phrase.openingKinds

/-- The kinds that a declaration can start with. -/
def declarationKinds : List Kind := [.keyword .fun_, .keyword .var] ++ statementKinds

/-- What a passage starts with, and that it takes tokens unless it may be left out. -/
def Opens (tokens rest : List Token) : Passage → Prop
  | declaration _ =>
    ∃ token mid, tokens = token :: mid ∧ rest <:+ mid ∧ token.kind ∈ declarationKinds
  | statement _ _ =>
    ∃ token mid, tokens = token :: mid ∧ rest <:+ mid ∧ token.kind ∈ statementKinds
  | declarations _ =>
    tokens = rest
      ∨ ∃ token mid, tokens = token :: mid ∧ rest <:+ mid ∧ token.kind ∈ declarationKinds

variable {passage : Passage} {tokens rest : List Token} {reports : List SyntaxReport}

lemma Opens.suffix (opens : passage.Opens tokens rest) : rest <:+ tokens := by
  cases passage with
  | declarations stmts =>
      rcases opens with rfl | ⟨token, mid, rfl, suffix, _⟩
      · exact List.suffix_rfl
      · exact suffix_ahead suffix
  | _ =>
      obtain ⟨token, mid, rfl, suffix, _⟩ := opens
      exact suffix_ahead suffix

lemma Reads.opens (reads : passage.Reads tokens reports rest) : passage.Opens tokens rest := by
  induction reads with
  | function keyword signature _ _ ih =>
      refine ⟨_, _, rfl, (suffix_behind ih.suffix).trans signature.suffix, ?_⟩
      simp [keyword, declarationKinds]
  | «variable» keyword stmt =>
      exact ⟨_, _, rfl, stmt.suffix, by simp [keyword, declarationKinds]⟩
  | plain _ ih =>
      obtain ⟨token, mid, rfl, suffix, kind⟩ := ih
      exact ⟨token, mid, rfl, suffix, List.mem_append_right _ kind⟩
  | expression value _ =>
      obtain ⟨token, mid, rfl, suffix, kind⟩ := value.opens
      exact ⟨token, mid, rfl, suffix_behind suffix, List.mem_append_right _ kind⟩
  | print keyword value _ =>
      exact ⟨_, _, rfl, suffix_behind value.suffix, by simp [keyword, statementKinds]⟩
  | return_ keyword value _ =>
      exact ⟨_, _, rfl, suffix_behind value.suffix, by simp [keyword, statementKinds]⟩
  | block opening _ _ ih =>
      exact ⟨_, _, rfl, suffix_behind ih.suffix, by simp [opening, statementKinds]⟩
  | loop keyword condition _ ih =>
      exact ⟨_, _, rfl, ih.suffix.trans condition.suffix, by simp [keyword, statementKinds]⟩
  | forLoop keyword clauses _ ih =>
      exact ⟨_, _, rfl, ih.suffix.trans clauses.suffix, by simp [keyword, statementKinds]⟩
  | branch keyword condition _ ih =>
      exact ⟨_, _, rfl, ih.suffix.trans condition.suffix, by simp [keyword, statementKinds]⟩
  | branchElse keyword condition _ _ _ ihconsequent ihalternative =>
      have far := ihalternative.suffix.trans (suffix_behind ihconsequent.suffix)
      exact ⟨_, _, rfl, far.trans condition.suffix, by simp [keyword, statementKinds]⟩
  | done => exact Or.inl rfl
  | next _ _ ihfirst ihothers =>
      obtain ⟨token, mid, rfl, suffix, kind⟩ := ihfirst
      exact Or.inr ⟨token, mid, rfl, ihothers.suffix.trans suffix, kind⟩

/-! ## The `else` behind an open statement -/

/-- The passage takes the `else` behind it, if it is open. -/
def TakesElse (tokens : List Token) (reports : List SyntaxReport) (rest : List Token) :
    Passage → Prop
  | statement true _ => ∀ keyword mid, rest = keyword :: mid → keyword.kind = .keyword .else_ →
      ∀ isOpen alternative after behind, (statement isOpen alternative).Reads mid after behind →
        ∃ stillOpen whole, (statement stillOpen whole).Reads tokens (reports ++ after) behind
  | _ => True

lemma Reads.takesElse (reads : passage.Reads tokens reports rest) :
    passage.TakesElse tokens reports rest := by
  induction reads with
  | function | «variable» | plain | expression | print | return_ | block | done | next => trivial
  | @loop _ _ bodyOpen _ _ _ _ _ _ keywordKind condition _ ih =>
      cases bodyOpen with
      | false => trivial
      | true =>
          rintro keyword mid rfl otherwise isOpen alternative after behind alternativeReads
          obtain ⟨stillOpen, whole, wholeReads⟩ := ih _ _ rfl otherwise _ _ _ _ alternativeReads
          rw [List.append_assoc]
          exact ⟨_, _, .loop keywordKind condition wholeReads⟩
  | @forLoop _ _ _ _ bodyOpen _ _ _ _ _ _ keywordKind clauses _ ih =>
      cases bodyOpen with
      | false => trivial
      | true =>
          rintro keyword mid rfl otherwise isOpen alternative after behind alternativeReads
          obtain ⟨stillOpen, whole, wholeReads⟩ := ih _ _ rfl otherwise _ _ _ _ alternativeReads
          rw [List.append_assoc]
          exact ⟨_, _, .forLoop keywordKind clauses wholeReads⟩
  | @branch _ _ consequentOpen _ _ _ _ _ _ keywordKind condition consequent ih =>
      rintro keyword mid rfl otherwise isOpen alternative after behind alternativeReads
      rw [List.append_assoc]
      cases consequentOpen with
      | false => exact ⟨_, _, .branchElse keywordKind condition consequent otherwise alternativeReads⟩
      | true =>
          obtain ⟨stillOpen, whole, wholeReads⟩ := ih _ _ rfl otherwise _ _ _ _ alternativeReads
          exact ⟨_, _, .branch keywordKind condition wholeReads⟩
  | @branchElse _ _ _ _ otherOpen _ _ _ _ _ _ _ _ keywordKind condition consequent other _ _ ih =>
      cases otherOpen with
      | false => trivial
      | true =>
          rintro keyword mid rfl otherwise isOpen alternative after behind alternativeReads
          obtain ⟨stillOpen, whole, wholeReads⟩ := ih _ _ rfl otherwise _ _ _ _ alternativeReads
          rw [List.append_assoc, List.append_assoc]
          exact ⟨_, _, .branchElse keywordKind condition consequent other wholeReads⟩

/-- **An open statement takes an `else` behind it**, whatever `if` in it that belongs to. -/
theorem Reads.attach {stmt alternative : Stmt} {isOpen : Bool} {keyword : Token}
    {mid : List Token} {before after : List SyntaxReport}
    (stmtReads : (statement true stmt).Reads tokens before (keyword :: mid))
    (keywordKind : keyword.kind = .keyword .else_)
    (alternativeReads : (statement isOpen alternative).Reads mid after rest) :
    ∃ stillOpen whole, (statement stillOpen whole).Reads tokens (before ++ after) rest :=
  stmtReads.takesElse keyword mid rfl keywordKind isOpen alternative after rest alternativeReads

end Passage

end LoxLang
