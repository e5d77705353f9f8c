import LoxLang.Proofs.Grammar.Passage
import Mathlib

/-!
# What is read was there

Whatever the parser ends with is one of the readings of the tokens that it took.

* `SoundExpressions`, **`soundExpressions`** — every value of the functions for expressions, also
  with reports.
* `SoundStatements`, **`soundStatements`** — every value of the functions for statements that is
  read without a report.  A raised error is always reported, so nothing was skipped then.
* `declarations_exhausts` — with enough steps, a program without a report is read to the end.
-/

namespace LoxLang

namespace Parser

variable {tokens rest : List Token} {reports : List SyntaxReport}

/-! ## Expressions -/

/-- The functions for expressions read only phrases, when they have `n` steps. -/
structure SoundExpressions (n : Nat) : Prop where
  assignment : ∀ {tokens reports rest value}, Gives (assignment n) tokens reports rest value →
    (Phrase.assignment value).Reads tokens reports rest
  operation : ∀ {levels tokens reports rest value},
    Gives (operation n levels) tokens reports rest value →
    (Phrase.operation levels value).Reads tokens reports rest
  chain : ∀ {level tighter left tokens reports rest value},
    Gives (chain n level tighter left) tokens reports rest value →
    (Phrase.chain level tighter left value).Reads tokens reports rest
  unary : ∀ {tokens reports rest value}, Gives (unary n) tokens reports rest value →
    (Phrase.unary value).Reads tokens reports rest
  calls : ∀ {callee tokens reports rest value}, Gives (calls n callee) tokens reports rest value →
    (Phrase.calls callee value).Reads tokens reports rest
  arguments : ∀ {count tokens reports rest values},
    Gives (arguments n count) tokens reports rest values →
    (Phrase.arguments count values).Reads tokens reports rest
  primary : ∀ {tokens reports rest value}, Gives (primary n) tokens reports rest value →
    (Phrase.primary value).Reads tokens reports rest

lemma sound_assignment {n : Nat} (ih : SoundExpressions n) {value : Expr}
    (gives : Gives (assignment (n + 1)) tokens reports rest value) :
    (Phrase.assignment value).Reads tokens reports rest := by
  rw [assignment, gives_bind] at gives
  obtain ⟨before, mid, target, after, targetGiven, gives, rfl⟩ := gives
  rw [gives_ahead, gives_accept] at gives
  have read := ih.operation targetGiven
  rcases gives with ⟨equals, behind, rfl, equalsKind, gives⟩ | ⟨_, gives⟩
  · rw [gives_bind] at gives
    obtain ⟨between, far, assigned, last, assignedGiven, gives, rfl⟩ := gives
    have valueGiven := ih.assignment assignedGiven
    cases target with
    | «variable» name hops =>
        obtain ⟨rfl, rfl, rfl⟩ := gives_pure.mp gives
        simpa using Phrase.Reads.assign read equalsKind valueGiven
    | _ =>
        cases gives
        exact Phrase.Reads.mistaken read equalsKind (by simp) valueGiven
  · obtain ⟨rfl, rfl, rfl⟩ := gives_pure.mp gives
    simpa using Phrase.Reads.plain read

lemma sound_operation {n : Nat} (ih : SoundExpressions n) {levels : List Level} {value : Expr}
    (gives : Gives (operation (n + 1) levels) tokens reports rest value) :
    (Phrase.operation levels value).Reads tokens reports rest := by
  cases levels with
  | nil => exact Phrase.Reads.operand (ih.unary gives)
  | cons level tighter =>
      rw [operation, gives_bind] at gives
      obtain ⟨before, mid, left, after, leftGiven, chain, rfl⟩ := gives
      exact Phrase.Reads.row (ih.operation leftGiven) (ih.chain chain)

lemma sound_chain {n : Nat} (ih : SoundExpressions n) {level : Level} {tighter : List Level}
    {left value : Expr} (gives : Gives (chain (n + 1) level tighter left) tokens reports rest value) :
    (Phrase.chain level tighter left value).Reads tokens reports rest := by
  rw [chain, gives_acceptAny] at gives
  rcases gives with ⟨operator, behind, rfl, operatorListed, gives⟩ | ⟨_, gives⟩
  · rw [gives_bind] at gives
    obtain ⟨before, mid, right, after, rightGiven, chainGiven, rfl⟩ := gives
    exact Phrase.Reads.link operatorListed (ih.operation rightGiven) (ih.chain chainGiven)
  · obtain ⟨rfl, rfl, rfl⟩ := gives_pure.mp gives
    exact Phrase.Reads.alone

lemma sound_unary {n : Nat} (ih : SoundExpressions n) {value : Expr}
    (gives : Gives (unary (n + 1)) tokens reports rest value) :
    (Phrase.unary value).Reads tokens reports rest := by
  rw [unary, gives_acceptAny] at gives
  rcases gives with ⟨operator, behind, rfl, operatorListed, gives⟩ | ⟨_, gives⟩
  · rw [gives_bind] at gives
    obtain ⟨before, mid, operand, after, operandGiven, gives, rfl⟩ := gives
    obtain ⟨rfl, rfl, rfl⟩ := gives_pure.mp gives
    simpa using Phrase.Reads.sign operatorListed (ih.unary operandGiven)
  · rw [gives_bind] at gives
    obtain ⟨before, mid, callee, after, calleeGiven, calls, rfl⟩ := gives
    exact Phrase.Reads.callee (ih.primary calleeGiven) (ih.calls calls)

lemma sound_calls {n : Nat} (ih : SoundExpressions n) {callee value : Expr}
    (gives : Gives (calls (n + 1) callee) tokens reports rest value) :
    (Phrase.calls callee value).Reads tokens reports rest := by
  rw [calls, gives_accept] at gives
  rcases gives with ⟨opening, behind, rfl, openingKind, gives⟩ | ⟨_, gives⟩
  · rw [gives_isNext] at gives
    rcases gives with ⟨paren, far, rfl, _, gives⟩ | ⟨_, gives⟩
    · simp only [↓reduceIte] at gives
      rw [gives_bind] at gives
      obtain ⟨before, mid, values, after, valuesGiven, gives, rfl⟩ := gives
      obtain ⟨rfl, rfl, rfl⟩ := gives_pure.mp valuesGiven
      rw [gives_expect] at gives
      obtain ⟨_, _, pair, parenKind, callsGiven⟩ := gives
      cases pair
      exact Phrase.Reads.calledBare openingKind parenKind (ih.calls callsGiven)
    · simp only [Bool.false_eq_true, ↓reduceIte] at gives
      rw [gives_bind] at gives
      obtain ⟨before, mid, values, after, valuesGiven, gives, rfl⟩ := gives
      rw [gives_expect] at gives
      obtain ⟨paren, far, rfl, parenKind, callsGiven⟩ := gives
      exact Phrase.Reads.called openingKind (ih.arguments valuesGiven) parenKind (ih.calls callsGiven)
  · obtain ⟨rfl, rfl, rfl⟩ := gives_pure.mp gives
    exact Phrase.Reads.uncalled

lemma sound_arguments {n : Nat} (ih : SoundExpressions n) {count : Nat} {values : List Expr}
    (gives : Gives (arguments (n + 1) count) tokens reports rest values) :
    (Phrase.arguments count values).Reads tokens reports rest := by
  rw [arguments, gives_ahead] at gives
  dsimp only at gives
  rw [gives_overfull] at gives
  obtain ⟨after, gives, rfl⟩ := gives
  rw [gives_bind] at gives
  obtain ⟨before, mid, first, after, firstGiven, gives, rfl⟩ := gives
  rw [gives_accept] at gives
  rcases gives with ⟨comma, behind, rfl, commaKind, gives⟩ | ⟨_, gives⟩
  · rw [gives_bind] at gives
    obtain ⟨between, far, others, last, othersGiven, gives, rfl⟩ := gives
    obtain ⟨rfl, rfl, rfl⟩ := gives_pure.mp gives
    simpa using Phrase.Reads.more (ih.assignment firstGiven) commaKind (ih.arguments othersGiven)
  · obtain ⟨rfl, rfl, rfl⟩ := gives_pure.mp gives
    have lastGiven : (Phrase.arguments count [first]).Reads _ _ _ := .last (ih.assignment firstGiven)
    simpa using lastGiven

lemma sound_primary {n : Nat} (ih : SoundExpressions n) {value : Expr}
    (gives : Gives (primary (n + 1)) tokens reports rest value) :
    (Phrase.primary value).Reads tokens reports rest := by
  rw [primary, gives_acceptMap] at gives
  rcases gives with ⟨token, behind, constant, rfl, constantOf, gives⟩ | ⟨_, gives⟩
  · obtain ⟨rfl, rfl, rfl⟩ := gives_pure.mp gives
    exact Phrase.Reads.literal constantOf
  rw [gives_accept] at gives
  rcases gives with ⟨name, behind, rfl, nameKind, gives⟩ | ⟨_, gives⟩
  · obtain ⟨rfl, rfl, rfl⟩ := gives_pure.mp gives
    exact Phrase.Reads.name nameKind
  rw [gives_accept] at gives
  rcases gives with ⟨opening, behind, rfl, openingKind, gives⟩ | ⟨_, gives⟩
  · rw [gives_bind] at gives
    obtain ⟨before, mid, inner, after, innerGiven, gives, rfl⟩ := gives
    rw [gives_expect] at gives
    obtain ⟨closing, far, rfl, closingKind, gives⟩ := gives
    obtain ⟨rfl, rfl, rfl⟩ := gives_pure.mp gives
    simpa using Phrase.Reads.group openingKind (ih.assignment innerGiven) closingKind
  · exact absurd gives (by simp)

/-- **Every value of the functions for expressions is a reading.** -/
theorem soundExpressions (n : Nat) : SoundExpressions n := by
  induction n with
  | zero =>
      constructor
      all_goals
        intros
        rename_i h
        simp [assignment, operation, chain, unary, calls, arguments, primary] at h
  | succ n ih =>
      constructor
      case assignment => exact sound_assignment ih
      case operation => exact sound_operation ih
      case chain => exact sound_chain ih
      case unary => exact sound_unary ih
      case calls => exact sound_calls ih
      case arguments => exact sound_arguments ih
      case primary => exact sound_primary ih

lemma sound_expression {value : Expr} (gives : Gives expression tokens reports rest value) :
    value.Reads tokens reports rest :=
  (soundExpressions _).assignment (gives_expression.mp gives)

/-! ## Parts of statements -/

lemma sound_clause {closing : Kind} {value : Option Expr}
    (gives : Gives (clause closing) tokens reports rest value) :
    ClauseReads value tokens reports rest := by
  rw [clause, gives_isNext] at gives
  rcases gives with ⟨_, _, _, _, gives⟩ | ⟨_, gives⟩
  · obtain ⟨rfl, rfl, rfl⟩ := gives_pure.mp gives
    exact .omitted
  · obtain ⟨given, givenGiven, rfl⟩ := gives_map.mp gives
    exact .given (sound_expression givenGiven)

lemma sound_variable {stmt : Stmt} (gives : Gives variableDeclaration tokens reports rest stmt) :
    VariableReads stmt tokens reports rest := by
  rw [variableDeclaration, gives_expect] at gives
  obtain ⟨name, mid, rfl, nameKind, gives⟩ := gives
  rw [gives_accept] at gives
  rcases gives with ⟨equals, behind, rfl, equalsKind, gives⟩ | ⟨_, gives⟩
  · rw [gives_bind] at gives
    obtain ⟨before, mid, _, after, initializer, gives, rfl⟩ := gives
    rw [gives_map] at initializer
    obtain ⟨value, valueGiven, rfl⟩ := initializer
    rw [gives_expect] at gives
    obtain ⟨semicolon, far, rfl, semicolonKind, gives⟩ := gives
    obtain ⟨rfl, rfl, rfl⟩ := gives_pure.mp gives
    simpa using VariableReads.initialized nameKind equalsKind (sound_expression valueGiven) semicolonKind
  · rw [gives_bind] at gives
    obtain ⟨before, mid, _, after, initializer, gives, rfl⟩ := gives
    obtain ⟨rfl, rfl, rfl⟩ := gives_pure.mp initializer
    rw [gives_expect] at gives
    obtain ⟨semicolon, far, rfl, semicolonKind, gives⟩ := gives
    obtain ⟨rfl, rfl, rfl⟩ := gives_pure.mp gives
    exact VariableReads.bare nameKind semicolonKind

lemma sound_condition {opening closing : Expectation} {value : Expr}
    (gives : Gives (condition opening closing) tokens reports rest value) :
    ConditionReads value tokens reports rest := by
  rw [condition, gives_expect] at gives
  obtain ⟨open_, mid, rfl, openKind, gives⟩ := gives
  rw [gives_bind] at gives
  obtain ⟨before, mid, inner, after, innerGiven, gives, rfl⟩ := gives
  rw [gives_expect] at gives
  obtain ⟨close, far, rfl, closeKind, gives⟩ := gives
  obtain ⟨rfl, rfl, rfl⟩ := gives_pure.mp gives
  simpa using ConditionReads.condition openKind (sound_expression innerGiven) closeKind

lemma sound_parameters (n : Nat) : ∀ {count : Nat} {names tokens rest : List Token}
    {reports : List SyntaxReport}, Gives (parameters n count) tokens reports rest names →
    ParametersRead count names tokens reports rest := by
  induction n with
  | zero =>
      intro count names tokens rest reports h
      exact (gives_raise.mp h).elim
  | succ n ih =>
      intro count names tokens rest reports h
      rw [parameters, gives_ahead] at h
      dsimp only at h
      rw [gives_overfull] at h
      obtain ⟨after, h, rfl⟩ := h
      rw [gives_expect] at h
      obtain ⟨name, mid, rfl, nameKind, h⟩ := h
      rw [gives_accept] at h
      rcases h with ⟨comma, behind, rfl, commaKind, h⟩ | ⟨_, h⟩
      · rw [gives_bind] at h
        obtain ⟨between, far, others, last, othersGiven, h, rfl⟩ := h
        obtain ⟨rfl, rfl, rfl⟩ := gives_pure.mp h
        simpa using ParametersRead.more nameKind commaKind (ih othersGiven)
      · obtain ⟨rfl, rfl, rfl⟩ := gives_pure.mp h
        simpa using ParametersRead.last nameKind

lemma sound_signature {name : Token} {names : List Token}
    (gives : Gives signature tokens reports rest (name, names)) :
    SignatureReads name names tokens reports rest := by
  rw [signature, gives_expect] at gives
  obtain ⟨named, mid, rfl, nameKind, gives⟩ := gives
  rw [gives_expect] at gives
  obtain ⟨opening, mid, rfl, openingKind, gives⟩ := gives
  rw [gives_isNext] at gives
  rcases gives with ⟨_, _, rfl, _, gives⟩ | ⟨_, gives⟩
  · simp only [↓reduceIte] at gives
    rw [gives_bind] at gives
    obtain ⟨before, mid, _, after, namesGiven, gives, rfl⟩ := gives
    obtain ⟨rfl, rfl, rfl⟩ := gives_pure.mp namesGiven
    rw [gives_expect] at gives
    obtain ⟨closing, far, pair, closingKind, gives⟩ := gives
    cases pair
    rw [gives_expect] at gives
    obtain ⟨brace, behind, rfl, braceKind, gives⟩ := gives
    rw [gives_pure] at gives
    obtain ⟨rfl, rfl, gives⟩ := gives
    cases gives
    exact SignatureReads.bare nameKind openingKind closingKind braceKind
  · simp only [Bool.false_eq_true, ↓reduceIte] at gives
    replace gives := gives_bind.mp gives
    obtain ⟨before, mid, _, after, namesGiven, gives, rfl⟩ := gives
    rw [gives_expect] at gives
    obtain ⟨closing, far, rfl, closingKind, gives⟩ := gives
    rw [gives_expect] at gives
    obtain ⟨brace, behind, rfl, braceKind, gives⟩ := gives
    rw [gives_pure] at gives
    obtain ⟨rfl, rfl, gives⟩ := gives
    cases gives
    have list := sound_parameters _ (gives_parameters.mp namesGiven)
    simpa using SignatureReads.listed nameKind openingKind list closingKind braceKind

lemma sound_initializer {first : Option Stmt}
    (gives : Gives forInitializer tokens reports rest first) :
    InitializerReads first tokens reports rest := by
  rw [forInitializer, gives_accept] at gives
  rcases gives with ⟨semicolon, behind, rfl, semicolonKind, gives⟩ | ⟨_, gives⟩
  · obtain ⟨rfl, rfl, rfl⟩ := gives_pure.mp gives
    exact .omitted semicolonKind
  rw [gives_accept] at gives
  rcases gives with ⟨keyword, behind, rfl, keywordKind, gives⟩ | ⟨_, gives⟩
  · obtain ⟨stmt, stmtGiven, rfl⟩ := gives_map.mp gives
    exact .declared keywordKind (sound_variable stmtGiven)
  · rw [gives_map] at gives
    obtain ⟨stmt, stmtGiven, rfl⟩ := gives
    rw [expressionStatement, gives_bind] at stmtGiven
    obtain ⟨before, mid, value, after, valueGiven, gives, rfl⟩ := stmtGiven
    rw [gives_expect] at gives
    obtain ⟨semicolon, far, rfl, semicolonKind, gives⟩ := gives
    obtain ⟨rfl, rfl, rfl⟩ := gives_pure.mp gives
    simpa using InitializerReads.evaluated (sound_expression valueGiven) semicolonKind

lemma sound_forClauses {initializer : Option Stmt} {condition increment : Option Expr}
    (gives : Gives forClauses tokens reports rest (initializer, condition, increment)) :
    ForReads initializer condition increment tokens reports rest := by
  rw [forClauses, gives_expect] at gives
  obtain ⟨opening, mid, rfl, openingKind, gives⟩ := gives
  rw [gives_bind] at gives
  obtain ⟨before, mid, first, after, firstGiven, gives, rfl⟩ := gives
  rw [gives_bind] at gives
  obtain ⟨between, far, tested, after, testedGiven, gives, rfl⟩ := gives
  rw [gives_expect] at gives
  obtain ⟨semicolon, far, rfl, semicolonKind, gives⟩ := gives
  rw [gives_bind] at gives
  obtain ⟨last, behind, step, after, stepGiven, gives, rfl⟩ := gives
  rw [gives_expect] at gives
  obtain ⟨closing, behind, rfl, closingKind, gives⟩ := gives
  obtain ⟨rfl, rfl, gives⟩ := gives_pure.mp gives
  cases gives
  simpa using ForReads.clauses openingKind (sound_initializer firstGiven) (sound_clause testedGiven)
    semicolonKind (sound_clause stepGiven) closingKind

/-! ## Statements -/

/-- The functions for statements read only passages when they report nothing and have `n` steps. -/
structure SoundStatements (n : Nat) : Prop where
  declaration : ∀ {tokens rest found}, Gives (declaration n) tokens [] rest found →
    ∃ stmt, found = some stmt ∧ (Passage.declaration stmt).Reads tokens [] rest
  /-- An open statement has taken the `else` behind it, if there was one. -/
  statement : ∀ {tokens rest stmt}, Gives (statement n) tokens [] rest stmt →
    ∃ isOpen, (Passage.statement isOpen stmt).Reads tokens [] rest
      ∧ (isOpen = true → Stops [.keyword .else_] rest)
  block : ∀ {tokens rest body}, Gives (block n) tokens [] rest body →
    ∃ closing, closing.kind = .rightBrace
      ∧ (Passage.declarations body).Reads tokens [] (closing :: rest)
  declarations : ∀ {closing tokens rest stmts},
    Gives (declarations n closing) tokens [] rest stmts →
    (Passage.declarations stmts).Reads tokens [] rest

lemma sound_declaration {n : Nat} (ih : SoundStatements n) {found : Option Stmt}
    (gives : Gives (declaration (n + 1)) tokens [] rest found) :
    ∃ stmt, found = some stmt ∧ (Passage.declaration stmt).Reads tokens [] rest := by
  rw [declaration, gives_recovering] at gives
  obtain ⟨stmt, rfl, gives⟩ := gives
  refine ⟨stmt, rfl, ?_⟩
  rw [gives_accept] at gives
  rcases gives with ⟨keyword, mid, rfl, keywordKind, gives⟩ | ⟨_, gives⟩
  · rw [gives_bind_silent] at gives
    obtain ⟨mid, ⟨name, names⟩, signature, gives⟩ := gives
    rw [gives_bind_silent] at gives
    obtain ⟨far, body, bodyGiven, gives⟩ := gives
    obtain ⟨-, rfl, rfl⟩ := gives_pure.mp gives
    obtain ⟨closing, closingKind, read⟩ := ih.block bodyGiven
    exact .function keywordKind (sound_signature signature) read closingKind
  rw [gives_accept] at gives
  rcases gives with ⟨keyword, mid, rfl, keywordKind, gives⟩ | ⟨_, gives⟩
  · exact .variable keywordKind (sound_variable gives)
  · obtain ⟨isOpen, read, _⟩ := ih.statement gives
    exact .plain read

lemma sound_expressionStatement {stmt : Stmt}
    (gives : Gives expressionStatement tokens [] rest stmt) :
    (Passage.statement false stmt).Reads tokens [] rest := by
  rw [expressionStatement, gives_bind_silent] at gives
  obtain ⟨mid, value, valueGiven, gives⟩ := gives
  rw [gives_expect] at gives
  obtain ⟨semicolon, far, rfl, semicolonKind, gives⟩ := gives
  obtain ⟨-, rfl, rfl⟩ := gives_pure.mp gives
  exact .expression (sound_expression valueGiven) semicolonKind

lemma sound_printStatement {stmt : Stmt} {keyword : Token}
    (keywordKind : keyword.kind = .keyword .print) (gives : Gives printStatement tokens [] rest stmt) :
    (Passage.statement false stmt).Reads (keyword :: tokens) [] rest := by
  rw [printStatement, gives_bind_silent] at gives
  obtain ⟨mid, value, valueGiven, gives⟩ := gives
  rw [gives_expect] at gives
  obtain ⟨semicolon, far, rfl, semicolonKind, gives⟩ := gives
  obtain ⟨-, rfl, rfl⟩ := gives_pure.mp gives
  exact .print keywordKind (sound_expression valueGiven) semicolonKind

lemma sound_returnStatement {stmt : Stmt} {keyword : Token}
    (keywordKind : keyword.kind = .keyword .return_)
    (gives : Gives (returnStatement keyword) tokens [] rest stmt) :
    (Passage.statement false stmt).Reads (keyword :: tokens) [] rest := by
  rw [returnStatement, gives_bind_silent] at gives
  obtain ⟨mid, value, valueGiven, gives⟩ := gives
  rw [gives_expect] at gives
  obtain ⟨semicolon, far, rfl, semicolonKind, gives⟩ := gives
  obtain ⟨-, rfl, rfl⟩ := gives_pure.mp gives
  exact .return_ keywordKind (sound_clause valueGiven) semicolonKind

lemma sound_statement {n : Nat} (ih : SoundStatements n) {stmt : Stmt}
    (gives : Gives (statement (n + 1)) tokens [] rest stmt) :
    ∃ isOpen, (Passage.statement isOpen stmt).Reads tokens [] rest
      ∧ (isOpen = true → Stops [.keyword .else_] rest) := by
  rw [statement, gives_acceptMap] at gives
  rcases gives with ⟨token, mid, opening, rfl, openingKind, gives⟩ | ⟨_, gives⟩
  · rw [Opening.ofToken?_eq_some] at openingKind
    cases opening with
    | forLoop =>
        rw [gives_bind_silent] at gives
        obtain ⟨mid, ⟨initializer, condition, increment⟩, clauses, gives⟩ := gives
        rw [gives_bind_silent] at gives
        obtain ⟨far, body, bodyGiven, gives⟩ := gives
        obtain ⟨-, rfl, rfl⟩ := gives_pure.mp gives
        obtain ⟨isOpen, read, stops⟩ := ih.statement bodyGiven
        exact ⟨isOpen, .forLoop openingKind (sound_forClauses clauses) read, stops⟩
    | branch =>
        rw [gives_bind_silent] at gives
        obtain ⟨mid, condition, conditionGiven, gives⟩ := gives
        rw [gives_bind_silent] at gives
        obtain ⟨far, consequent, consequentGiven, gives⟩ := gives
        have conditionGiven := sound_condition conditionGiven
        obtain ⟨isOpen, read, stops⟩ := ih.statement consequentGiven
        rw [gives_accept] at gives
        rcases gives with ⟨otherwise, behind, rfl, otherwiseKind, gives⟩ | ⟨none_, gives⟩
        · rw [gives_bind_silent] at gives
          obtain ⟨end_, alternative, alternativeGiven, gives⟩ := gives
          obtain ⟨-, rfl, rfl⟩ := gives_pure.mp gives
          obtain ⟨isOpen', read', stops'⟩ := ih.statement alternativeGiven
          have closed : isOpen = false := by
            cases isOpen with
            | false => rfl
            | true => simpa [otherwiseKind] using stops rfl
          subst closed
          exact ⟨isOpen', .branchElse openingKind conditionGiven read otherwiseKind read', stops'⟩
        · obtain ⟨-, rfl, rfl⟩ := gives_pure.mp gives
          exact ⟨true, .branch openingKind conditionGiven read, fun _ => none_⟩
    | loop =>
        rw [gives_bind_silent] at gives
        obtain ⟨mid, condition, conditionGiven, gives⟩ := gives
        rw [gives_bind_silent] at gives
        obtain ⟨far, body, bodyGiven, gives⟩ := gives
        obtain ⟨-, rfl, rfl⟩ := gives_pure.mp gives
        obtain ⟨isOpen, read, stops⟩ := ih.statement bodyGiven
        exact ⟨isOpen, .loop openingKind (sound_condition conditionGiven) read, stops⟩
    | return_ keyword =>
        obtain ⟨kind, rfl⟩ := openingKind
        exact ⟨false, sound_returnStatement kind gives, by simp⟩
    | print => exact ⟨false, sound_printStatement openingKind gives, by simp⟩
    | block =>
        rw [gives_bind_silent] at gives
        obtain ⟨far, body, bodyGiven, gives⟩ := gives
        obtain ⟨-, rfl, rfl⟩ := gives_pure.mp gives
        obtain ⟨closing, closingKind, read⟩ := ih.block bodyGiven
        exact ⟨false, .block openingKind read closingKind, by simp⟩
  · exact ⟨false, sound_expressionStatement gives, by simp⟩

lemma sound_block {n : Nat} (ih : SoundStatements n) {body : List Stmt}
    (gives : Gives (block (n + 1)) tokens [] rest body) :
    ∃ closing, closing.kind = .rightBrace
      ∧ (Passage.declarations body).Reads tokens [] (closing :: rest) := by
  rw [block, gives_bind_silent] at gives
  obtain ⟨mid, inner, innerGiven, gives⟩ := gives
  rw [gives_expect] at gives
  obtain ⟨closing, far, rfl, closingKind, gives⟩ := gives
  obtain ⟨-, rfl, rfl⟩ := gives_pure.mp gives
  exact ⟨closing, closingKind, ih.declarations innerGiven⟩

lemma sound_declarations {n : Nat} (ih : SoundStatements n) {closing : Option Kind}
    {stmts : List Stmt} (gives : Gives (declarations (n + 1) closing) tokens [] rest stmts) :
    (Passage.declarations stmts).Reads tokens [] rest := by
  rw [declarations, gives_ahead] at gives
  cases tokens with
  | nil =>
      obtain ⟨-, rfl, rfl⟩ := gives_pure.mp gives
      exact .done
  | cons token behind =>
      dsimp only [List.head?] at gives
      split_ifs at gives with closingKind
      · obtain ⟨-, rfl, rfl⟩ := gives_pure.mp gives
        exact .done
      · rw [gives_bind_silent] at gives
        obtain ⟨mid, found, foundGiven, gives⟩ := gives
        rw [gives_bind_silent] at gives
        obtain ⟨far, others, othersGiven, gives⟩ := gives
        obtain ⟨-, rfl, rfl⟩ := gives_pure.mp gives
        obtain ⟨first, rfl, read⟩ := ih.declaration foundGiven
        exact .next read (ih.declarations othersGiven)

/-- **What the functions for statements read without a report is a reading.** -/
theorem soundStatements (n : Nat) : SoundStatements n := by
  induction n with
  | zero =>
      constructor
      case declaration =>
        intro tokens rest found h
        rw [declaration, gives_recovering] at h
        simp at h
      case statement =>
        intro tokens rest stmt h
        simp [statement] at h
      case block =>
        intro tokens rest body h
        simp [block] at h
      case declarations =>
        intro closing tokens rest stmts h
        rw [declarations] at h
        obtain ⟨-, rfl, rfl⟩ := gives_pure.mp h
        exact .done
  | succ n ih =>
      constructor
      case declaration => exact sound_declaration ih
      case statement => exact sound_statement ih
      case block => exact sound_block ih
      case declarations => exact sound_declarations ih

/-- With a step for every token and one more, a program without reports is read to its end. -/
lemma declarations_exhausts (n : Nat) : ∀ {tokens rest : List Token} {stmts : List Stmt},
    Gives (declarations n none) tokens [] rest stmts → tokens.length < n → rest = [] := by
  induction n with
  | zero =>
      intro tokens rest stmts _ length
      exact absurd length (Nat.not_lt_zero _)
  | succ n ih =>
      intro tokens rest stmts h length
      rw [declarations, gives_ahead] at h
      cases tokens with
      | nil =>
          obtain ⟨-, rfl, -⟩ := gives_pure.mp h
          rfl
      | cons token behind =>
          simp only [List.head?_cons, reduceCtorEq, ↓reduceIte] at h
          rw [gives_bind_silent] at h
          obtain ⟨mid, found, foundGiven, h⟩ := h
          rw [gives_bind_silent] at h
          obtain ⟨far, others, othersGiven, h⟩ := h
          obtain ⟨-, rfl, -⟩ := gives_pure.mp h
          obtain ⟨first, rfl, read⟩ := (soundStatements n).declaration foundGiven
          obtain ⟨_, _, pair, suffix, _⟩ := read.opens
          cases pair
          refine ih othersGiven ?_
          have := suffix.length_le
          simp only [List.length_cons] at length
          omega

end Parser

end LoxLang
