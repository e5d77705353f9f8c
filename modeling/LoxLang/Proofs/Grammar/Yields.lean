import LoxLang.Compilation
import LoxLang.Proofs.Grammar.Written
import Mathlib

/-!
# Trees put together by the grammar

Whatever tokens are read and however many errors are reported, a tree is put together by the rules of
the grammar: a node is made of parts that were read before, and a token that it keeps is one that was
asked for by its kind.  So a property of trees that all nodes made in this way have is one of all trees
that can be read.

* `Parser.Yields` — every value a parser can end with has a property; one lemma for each way to put
  parsers together.
* `Expr.Grammatical`, `Stmt.Grammatical` — the rules preserve a property of expressions, and one of
  statements.
* **`Program.parse_grammatical`**, **`Program.parseExpression_grammatical`** — then it holds of what
  is read, with or without errors.
-/

namespace LoxLang

/-! ## Properties that the rules preserve -/

/-- **The rules for expressions preserve a property.** -/
structure Expr.Grammatical (P : Expr → Prop) : Prop where
  literal (value : Constant) : P (.literal value)
  group {inner : Expr} : P inner → P (.group inner)
  unary {operator : Token} {operand : Expr} : operator.kind ∈ [Kind.bang, .minus] → P operand →
    P (.unary operator operand)
  row {level : Level} {left right : Expr} {operator : Token} : level ∈ Level.all →
    operator.kind ∈ level.operators → P left → P right → P (level.node left operator right)
  «variable» {name : Token} : name.kind = .identifier → P (.variable name none)
  assign {name : Token} {hops : Option Nat} {value : Expr} : P (.variable name hops) → P value →
    P (.assign name value none)
  call {callee : Expr} {paren : Token} {arguments : List Expr} : P callee →
    paren.kind = .rightParen → (∀ value ∈ arguments, P value) → P (.call callee paren arguments)

/-- A statement with a property that may stand in a branch or a loop. -/
def Stmt.Plainly (S : Stmt → Prop) (stmt : Stmt) : Prop := stmt.isDeclaration = false ∧ S stmt

/-- **The rules for statements preserve a property**, where expressions have one, too. -/
structure Stmt.Grammatical (P : Expr → Prop) (S : Stmt → Prop) : Prop where
  expression {value : Expr} : P value → S (.expression value)
  print {value : Expr} : P value → S (.print value)
  «variable» {name : Token} {initializer : Option Expr} : name.kind = .identifier →
    (∀ value ∈ initializer, P value) → S (.variable name initializer)
  block {body : List Stmt} : (∀ stmt ∈ body, S stmt) → S (.block body)
  branch {condition : Expr} {consequent : Stmt} {alternative : Option Stmt} : P condition →
    consequent.Plainly S → (∀ stmt ∈ alternative, stmt.Plainly S) →
    S (.branch condition consequent alternative)
  loop {condition : Expr} {body : Stmt} : P condition → body.Plainly S → S (.loop condition body)
  function {name : Token} {parameters : List Token} {body : List Stmt} : name.kind = .identifier →
    (∀ parameter ∈ parameters, parameter.kind = .identifier) → (∀ stmt ∈ body, S stmt) →
    S (.function name parameters body)
  return_ {keyword : Token} {value : Option Expr} : keyword.kind = .keyword .return_ →
    (∀ given ∈ value, P given) → S (.return_ keyword value)

namespace Parser

variable {α β : Type}

/-! ## What a parser can end with -/

/-- Every value a parser ends with has a property, whatever it reads and reports. -/
def Yields (parser : Parser α) (Q : α → Prop) : Prop :=
  ∀ tokens value, (parser tokens).outcome = .ok value → Q value

lemma Yields.pure {Q : α → Prop} {value : α} (holds : Q value) :
    Yields (Pure.pure value : Parser α) Q := by
  intro tokens found ok
  cases ok
  exact holds

lemma Yields.raise {Q : α → Prop} (error : SyntaxError) : Yields (raise error : Parser α) Q := by
  intro tokens value ok
  cases ok

lemma Yields.bind {P : α → Prop} {Q : β → Prop} {first : Parser α} {second : α → Parser β}
    (firstYields : Yields first P) (secondYields : ∀ value, P value → Yields (second value) Q) :
    Yields (first >>= second) Q := by
  intro tokens value good
  change (Parser.bind first second tokens).outcome = _ at good
  unfold Parser.bind at good
  have firstGood := firstYields tokens
  rcases step : first tokens with ⟨reports, rest, outcome⟩
  rw [step] at good firstGood
  cases outcome with
  | error error => cases good
  | ok middle => exact secondYields middle (firstGood middle rfl) rest value good

/-- Where nothing has to be known of the first parser's value. -/
lemma Yields.step {Q : β → Prop} {first : Parser α} {second : α → Parser β}
    (secondYields : ∀ value, Yields (second value) Q) : Yields (first >>= second) Q :=
  Yields.bind (P := fun _ => True) (fun _ _ _ => trivial) fun value _ => secondYields value

lemma Yields.ite {Q : α → Prop} {c : Prop} [Decidable c] {yes no : Parser α}
    (yesYields : Yields yes Q) (noYields : Yields no Q) : Yields (if c then yes else no) Q := by
  split
  · exact yesYields
  · exact noYields

/-- A parser in front of which something may have been reported. -/
lemma Yields.warned {Q : α → Prop} {c : Prop} [Decidable c] {warning : Parser β} {rest : Parser α}
    (restYields : Yields rest Q) : Yields (if c then warning >>= fun _ => rest else rest) Q :=
  Yields.ite (Yields.step fun _ => restYields) restYields

lemma Yields.map {P : α → Prop} {Q : β → Prop} {parser : Parser α} {f : α → β}
    (parserYields : Yields parser P) (maps : ∀ value, P value → Q (f value)) :
    Yields (f <$> parser) Q :=
  Yields.bind parserYields fun value h => Yields.pure (maps value h)

/-- A value that is there or not. -/
lemma Yields.some_ {Q : α → Prop} {parser : Parser α} (parserYields : Yields parser Q) :
    Yields (some <$> parser) fun found => ∀ value ∈ found, Q value :=
  parserYields.map fun value h other same => by cases same; exact h

lemma Yields.recovering {Q : α → Prop} {parser : Parser α} (parserYields : Yields parser Q) :
    Yields (recovering parser) (fun found => ∀ value ∈ found, Q value) := by
  intro tokens found good value valueHolds
  have parserGood := parserYields tokens
  unfold Parser.recovering at good
  rcases step : parser tokens with ⟨reports, rest, outcome⟩
  rw [step] at good parserGood
  cases outcome with
  | error error =>
      cases good
      cases valueHolds
  | ok read =>
      cases good
      cases valueHolds
      exact parserGood value rfl

/-! ### Tokens that are asked for -/

lemma Yields.acceptMap {Q : α → Prop} {f : Token → Option α}
    (given : ∀ token value, f token = some value → Q value) :
    Yields (acceptMap f) fun found => ∀ value ∈ found, Q value := by
  intro tokens found ok value mem
  unfold Parser.acceptMap at ok
  cases tokens with
  | nil => cases ok; cases mem
  | cons token rest =>
      dsimp only at ok
      split at ok
      · next value' accepted =>
          cases ok
          cases mem
          exact given token _ accepted
      · cases ok; cases mem

lemma Yields.acceptAny (kinds : List Kind) :
    Yields (acceptAny kinds) fun found => ∀ token ∈ found, token.kind ∈ kinds := by
  refine Yields.acceptMap fun token value accepted => ?_
  split at accepted
  · next listed =>
      cases accepted
      exact List.contains_iff_mem.mp listed
  · cases accepted

lemma Yields.accept (kind : Kind) :
    Yields (accept kind) fun found => ∀ token ∈ found, token.kind = kind := by
  refine Yields.acceptMap fun token value accepted => ?_
  split at accepted
  · next same =>
      cases accepted
      exact same
  · cases accepted

lemma Yields.expect (kind : Kind) (what : Expectation) :
    Yields (expect kind what) fun token => token.kind = kind := by
  refine Yields.bind (Yields.accept kind) fun accepted given => ?_
  cases accepted with
  | none => exact Yields.raise _
  | some token => exact Yields.pure (given token rfl)

/-! ## Expressions -/

section

variable {P : Expr → Prop} (grammatical : Expr.Grammatical P)

/-- What the functions for expressions yield when they have `n` steps. -/
structure YieldsExpressions (P : Expr → Prop) (n : Nat) : Prop where
  assignment : Yields (assignment n) P
  operation : ∀ levels ⊆ Level.all, Yields (operation n levels) P
  chain : ∀ level ∈ Level.all, ∀ tighter ⊆ Level.all, ∀ left : Expr, P left →
    Yields (chain n level tighter left) P
  unary : Yields (unary n) P
  calls : ∀ callee : Expr, P callee → Yields (calls n callee) P
  arguments : ∀ count, Yields (arguments n count) fun values => ∀ value ∈ values, P value
  primary : Yields (primary n) P

namespace YieldsExpressions

variable {n : Nat} (ih : YieldsExpressions P n)

include ih

lemma arguments_succ (count : Nat) :
    Yields (Parser.arguments (n + 1) count) fun values => ∀ value ∈ values, P value := by
  refine Yields.step fun here => Yields.warned ?_
  refine Yields.bind ih.assignment fun first firstYields => Yields.step fun accepted => ?_
  cases accepted with
  | none => exact Yields.pure (by simpa using firstYields)
  | some comma =>
      refine Yields.bind (ih.arguments _) fun others othersHolds => Yields.pure ?_
      exact List.forall_mem_cons.mpr ⟨firstYields, othersHolds⟩

include grammatical

lemma assignment_succ : Yields (Parser.assignment (n + 1)) P := by
  refine Yields.bind (ih.operation _ (List.Subset.refl _)) fun target targetHolds => ?_
  refine Yields.step fun equals => Yields.step fun accepted => ?_
  cases accepted with
  | none => exact Yields.pure targetHolds
  | some token =>
      refine Yields.bind ih.assignment fun value valueHolds => ?_
      split
      · exact Yields.pure (grammatical.assign targetHolds valueHolds)
      · exact Yields.step fun _ => Yields.pure targetHolds

lemma chain_succ {level : Level} (listed : level ∈ Level.all) {tighter : List Level}
    (tighterListed : tighter ⊆ Level.all) {left : Expr} (leftHolds : P left) :
    Yields (Parser.chain (n + 1) level tighter left) P := by
  refine Yields.bind (Yields.acceptAny _) fun accepted given => ?_
  cases accepted with
  | none => exact Yields.pure leftHolds
  | some operator =>
      refine Yields.bind (ih.operation tighter tighterListed) fun right rightHolds => ?_
      exact ih.chain level listed tighter tighterListed _
        (grammatical.row listed (given operator rfl) leftHolds rightHolds)

lemma unary_succ : Yields (Parser.unary (n + 1)) P := by
  refine Yields.bind (Yields.acceptAny _) fun accepted given => ?_
  cases accepted with
  | some operator =>
      exact Yields.bind ih.unary fun operand operandHolds =>
        Yields.pure (grammatical.unary (given operator rfl) operandHolds)
  | none => exact Yields.bind ih.primary fun callee calleeHolds => ih.calls callee calleeHolds

lemma calls_succ {callee : Expr} (calleeHolds : P callee) : Yields (Parser.calls (n + 1) callee) P := by
  refine Yields.step fun accepted => ?_
  cases accepted with
  | none => exact Yields.pure calleeHolds
  | some token =>
      have last : ∀ values, (∀ value ∈ values, P value) → Yields (do
          let paren ← Parser.expect .rightParen .closeParenAfterArguments
          Parser.calls n (.call callee paren values)) P := fun values valuesHolds =>
        Yields.bind (Yields.expect _ _) fun paren parenKind =>
          ih.calls _ (grammatical.call calleeHolds parenKind valuesHolds)
      exact Yields.step fun closing =>
        Yields.ite (last [] (by simp)) (Yields.bind (ih.arguments 0) last)

lemma primary_succ : Yields (Parser.primary (n + 1)) P := by
  refine Yields.step fun constant => ?_
  cases constant with
  | some value => exact Yields.pure (grammatical.literal value)
  | none =>
      refine Yields.bind (Yields.accept _) fun name given => ?_
      cases name with
      | some token => exact Yields.pure (grammatical.variable (given token rfl))
      | none =>
          refine Yields.step fun paren => ?_
          cases paren with
          | none => exact Yields.raise _
          | some token =>
              refine Yields.bind ih.assignment fun inner innerYields => ?_
              exact Yields.step fun _ => Yields.pure (grammatical.group innerYields)

end YieldsExpressions

include grammatical

lemma yieldsExpressions (n : Nat) : YieldsExpressions P n := by
  induction n with
  | zero => constructor <;> intros <;> exact Yields.raise _
  | succ n ih =>
      refine ⟨ih.assignment_succ grammatical, fun levels levelsListed => ?_,
        fun level listed tighter tighterListed left leftHolds =>
          ih.chain_succ grammatical listed tighterListed leftHolds,
        ih.unary_succ grammatical, fun callee calleeHolds => ih.calls_succ grammatical calleeHolds,
        ih.arguments_succ, ih.primary_succ grammatical⟩
      cases levels with
      | nil => exact ih.unary
      | cons level tighter =>
          have tighterListed := List.Subset.trans (List.subset_cons_self level tighter) levelsListed
          refine Yields.bind (ih.operation tighter tighterListed) fun left leftHolds => ?_
          exact ih.chain level (levelsListed List.mem_cons_self) tighter tighterListed left leftHolds

lemma yields_expression : Yields expression P :=
  fun tokens => (yieldsExpressions grammatical (allowance tokens)).assignment tokens

end

/-! ## Statements -/

section

variable {P : Expr → Prop} {S : Stmt → Prop} (expressions : Expr.Grammatical P)
  (statements : Stmt.Grammatical P S)

section

include statements

lemma plainly_pair {first second : Stmt} (firstYields : S first) (secondYields : S second) :
    (Stmt.block [first, second]).Plainly S :=
  ⟨rfl, statements.block (by simp [firstYields, secondYields])⟩

lemma plainly_loop {condition : Expr} {body : Stmt} (conditionHolds : P condition)
    (bodyHolds : body.Plainly S) : (Stmt.loop condition body).Plainly S :=
  ⟨rfl, statements.loop conditionHolds bodyHolds⟩

include expressions

/-- The blocks and loops that a `for` loop stands for are put together by the rules, too. -/
lemma plainly_forLoop {initializer : Option Stmt} {condition increment : Option Expr}
    {body : Stmt} (initializerHolds : ∀ stmt ∈ initializer, S stmt)
    (conditionHolds : ∀ value ∈ condition, P value) (incrementHolds : ∀ value ∈ increment, P value)
    (bodyHolds : body.Plainly S) : (Stmt.forLoop initializer condition increment body).Plainly S := by
  have holds : P (condition.getD (.literal (.bool true))) := by
    cases condition with
    | none => exact expressions.literal _
    | some value => exact conditionHolds value rfl
  have loop : ∀ {round : Stmt}, round.Plainly S →
      (Stmt.loop (condition.getD (.literal (.bool true))) round).Plainly S :=
    plainly_loop statements holds
  cases increment with
  | none =>
      cases initializer with
      | none => exact loop bodyHolds
      | some first => exact plainly_pair statements (initializerHolds first rfl) (loop bodyHolds).2
  | some step =>
      have roundHolds : (Stmt.block [body, .expression step]).Plainly S :=
        plainly_pair statements bodyHolds.2 (statements.expression (incrementHolds step rfl))
      cases initializer with
      | none => exact loop roundHolds
      | some first => exact plainly_pair statements (initializerHolds first rfl) (loop roundHolds).2

end

include expressions

lemma yields_clause (closing : Kind) :
    Yields (clause closing) fun found => ∀ value ∈ found, P value := by
  refine Yields.step fun missing => Yields.ite (Yields.pure (by simp)) ?_
  exact (yields_expression expressions).some_

lemma yields_condition (opening closing : Expectation) : Yields (condition opening closing) P :=
  Yields.step fun _ => Yields.bind (yields_expression expressions) fun _ value =>
    Yields.step fun _ => Yields.pure value

omit expressions in
lemma yields_parameters (n count : Nat) : Yields (parameters n count)
    fun names => ∀ name ∈ names, name.kind = .identifier := by
  induction n generalizing count with
  | zero => exact Yields.raise _
  | succ n ih =>
      refine Yields.step fun here => Yields.warned ?_
      refine Yields.bind (Yields.expect _ _) fun first firstYields => Yields.step fun accepted => ?_
      cases accepted with
      | none => exact Yields.pure (by simpa using firstYields)
      | some comma =>
          refine Yields.bind (ih _) fun others othersHolds => Yields.pure ?_
          exact List.forall_mem_cons.mpr ⟨firstYields, othersHolds⟩

omit expressions in
lemma yields_signature : Yields signature fun heading =>
    heading.1.kind = .identifier ∧ ∀ name ∈ heading.2, name.kind = .identifier := by
  refine Yields.bind (Yields.expect _ _) fun name nameKind => Yields.step fun _ => ?_
  have last : ∀ names : List Token, (∀ name ∈ names, name.kind = .identifier) → Yields (do
      let _ ← expect .rightParen .closeParenAfterParameters
      let _ ← expect .leftBrace .openBraceOfFunction
      return (name, names)) fun heading =>
        heading.1.kind = .identifier ∧ ∀ name ∈ heading.2, name.kind = .identifier :=
    fun names namesYield => Yields.step fun _ => Yields.step fun _ => Yields.pure ⟨nameKind, namesYield⟩
  have namesYield : Yields (fun tokens => parameters (allowance tokens) 0 tokens)
      fun names => ∀ name ∈ names, name.kind = .identifier :=
    fun tokens => yields_parameters _ 0 tokens
  exact Yields.step fun closing => Yields.ite (last [] (by simp)) (Yields.bind namesYield last)

include statements

lemma yields_variableDeclaration : Yields variableDeclaration S := by
  refine Yields.bind (Yields.expect _ _) fun name nameKind => ?_
  have last : ∀ initializer : Option Expr, (∀ value ∈ initializer, P value) → Yields (do
      let _ ← expect .semicolon .semicolonAfterVariable
      return .variable name initializer) S :=
    fun initializer h => Yields.step fun _ => Yields.pure (statements.variable nameKind h)
  refine Yields.step fun accepted => ?_
  cases accepted with
  | none => exact last none (by simp)
  | some equals => exact Yields.bind (yields_expression expressions).some_ last

lemma yields_expressionStatement : Yields expressionStatement (Stmt.Plainly S) :=
  Yields.bind (yields_expression expressions) fun _ value =>
    Yields.step fun _ => Yields.pure ⟨rfl, statements.expression value⟩

lemma yields_forInitializer :
    Yields forInitializer fun found => ∀ stmt ∈ found, S stmt := by
  refine Yields.step fun accepted => ?_
  cases accepted with
  | some semicolon => exact Yields.pure (by simp)
  | none =>
      refine Yields.step fun announced => ?_
      cases announced with
      | some token => exact (yields_variableDeclaration expressions statements).some_
      | none =>
          exact Yields.map (yields_expressionStatement expressions statements)
            (fun stmt h => by simpa using h.2)

lemma yields_forClauses :
    Yields forClauses fun clauses => (∀ stmt ∈ clauses.1, S stmt)
      ∧ (∀ value ∈ clauses.2.1, P value) ∧ (∀ value ∈ clauses.2.2, P value) :=
  Yields.step fun _ => Yields.bind (yields_forInitializer expressions statements)
    fun _ initializer => Yields.bind (yields_clause expressions _) fun _ condition =>
      Yields.step fun _ => Yields.bind (yields_clause expressions _) fun _ increment =>
        Yields.step fun _ => Yields.pure ⟨initializer, condition, increment⟩

lemma yields_print : Yields printStatement (Stmt.Plainly S) :=
  Yields.bind (yields_expression expressions) fun _ value =>
    Yields.step fun _ => Yields.pure ⟨rfl, statements.print value⟩

lemma yields_return {keyword : Token} (keywordKind : keyword.kind = .keyword .return_) :
    Yields (returnStatement keyword) (Stmt.Plainly S) :=
  Yields.bind (yields_clause expressions _) fun _ value =>
    Yields.step fun _ => Yields.pure ⟨rfl, statements.return_ keywordKind value⟩

omit expressions statements in
/-- What a statement announces keeps its keyword. -/
lemma yields_opening : Yields (acceptMap Opening.ofToken?) fun found => ∀ opening ∈ found,
    ∀ keyword, opening = .return_ keyword → keyword.kind = .keyword .return_ := by
  refine Yields.acceptMap fun token opening announced keyword same => ?_
  subst same
  unfold Opening.ofToken? at announced
  split at announced <;> cases announced
  assumption

/-- What the functions for statements yield when they have `n` steps. -/
structure YieldsStatements (S : Stmt → Prop) (n : Nat) : Prop where
  declaration : Yields (declaration n) fun found => ∀ stmt ∈ found, S stmt
  statement : Yields (statement n) (Stmt.Plainly S)
  block : Yields (block n) fun body => ∀ stmt ∈ body, S stmt
  declarations : ∀ closing, Yields (declarations n closing) fun body => ∀ stmt ∈ body, S stmt

namespace YieldsStatements

variable {n : Nat} (ih : YieldsStatements S n)

include ih

lemma declaration_succ : Yields (Parser.declaration (n + 1)) fun found => ∀ stmt ∈ found, S stmt := by
  refine Yields.recovering (Yields.step fun announced => ?_)
  cases announced with
  | some token =>
      refine Yields.bind yields_signature fun heading headingHolds => ?_
      exact Yields.bind ih.block fun body bodyHolds =>
        Yields.pure (statements.function headingHolds.1 headingHolds.2 bodyHolds)
  | none =>
      refine Yields.step fun announced => ?_
      cases announced with
      | some token => exact yields_variableDeclaration expressions statements
      | none => exact fun tokens stmt ok => (ih.statement tokens stmt ok).2

lemma statement_succ : Yields (Parser.statement (n + 1)) (Stmt.Plainly S) := by
  refine Yields.bind yields_opening fun opening given => ?_
  rcases opening with _ | ⟨_ | _ | _ | keyword | _ | _⟩
  · exact yields_expressionStatement expressions statements
  · refine Yields.bind (yields_forClauses expressions statements) fun clauses clausesHolds => ?_
    obtain ⟨initializer, conditionHolds, increment⟩ := clausesHolds
    exact Yields.bind ih.statement fun body bodyHolds => Yields.pure
      (plainly_forLoop expressions statements initializer conditionHolds increment bodyHolds)
  · refine Yields.bind (yields_condition expressions _ _) fun condition conditionHolds => ?_
    refine Yields.bind ih.statement fun consequent consequentHolds => Yields.step fun accepted => ?_
    cases accepted with
    | none => exact Yields.pure ⟨rfl, statements.branch conditionHolds consequentHolds (by simp)⟩
    | some token =>
        exact Yields.bind ih.statement fun alternative alternativeHolds => Yields.pure
          ⟨rfl, statements.branch conditionHolds consequentHolds (by simpa using alternativeHolds)⟩
  · refine Yields.bind (yields_condition expressions _ _) fun condition conditionHolds => ?_
    exact Yields.bind ih.statement fun body bodyHolds =>
      Yields.pure (plainly_loop statements conditionHolds bodyHolds)
  · exact yields_return expressions statements (given _ rfl keyword rfl)
  · exact yields_print expressions statements
  · exact Yields.bind ih.block fun body bodyHolds => Yields.pure ⟨rfl, statements.block bodyHolds⟩

omit expressions statements in
lemma declarations_succ (closing : Option Kind) :
    Yields (Parser.declarations (n + 1) closing) fun body => ∀ stmt ∈ body, S stmt := by
  refine Yields.step fun tokens => ?_
  split
  · exact Yields.pure (by simp)
  · refine Yields.ite (Yields.pure (by simp)) ?_
    refine Yields.bind ih.declaration fun first firstYields => ?_
    refine Yields.bind (ih.declarations closing) fun others othersHolds => Yields.pure ?_
    refine List.forall_mem_append.mpr ⟨fun stmt mem => firstYields stmt ?_, othersHolds⟩
    exact Option.mem_toList.mp mem

end YieldsStatements

lemma yieldsStatements (n : Nat) : YieldsStatements S n := by
  induction n with
  | zero => exact ⟨Yields.recovering (Yields.raise _), Yields.raise _, Yields.raise _,
      fun _ => Yields.pure (by simp)⟩
  | succ n ih => exact ⟨ih.declaration_succ expressions statements,
      ih.statement_succ expressions statements,
      Yields.bind (ih.declarations _) fun body bodyHolds => Yields.step fun _ => Yields.pure bodyHolds,
      ih.declarations_succ⟩

end

end Parser

/-! ## Whole inputs -/

namespace Program

variable {P : Expr → Prop} {S : Stmt → Prop}

/-- **What the rules preserve holds of every statement that is read**, with or without errors. -/
theorem parse_grammatical (expressions : Expr.Grammatical P) (statements : Stmt.Grammatical P S)
    (tokens : List Token) : ∀ stmt ∈ (parse tokens).tree, S stmt := by
  unfold parse
  have yields := (Parser.yieldsStatements expressions statements
    (Parser.allowance (beforeEnd tokens))).declarations none (beforeEnd tokens)
  rcases step : Parser.declarations (Parser.allowance (beforeEnd tokens)) none (beforeEnd tokens)
    with ⟨reports, rest, outcome⟩
  rw [step] at yields
  simp only [step]
  cases outcome with
  | error error => exact fun _ mem => absurd mem List.not_mem_nil
  | ok statements => exact yields statements rfl

/-- **What the rules preserve holds of the expression that is read.** -/
theorem parseExpression_grammatical (expressions : Expr.Grammatical P) {tokens : List Token}
    {value : Expr} (found : (parseExpression tokens).tree = some value) : P value := by
  unfold parseExpression at found
  have yields := Parser.yields_expression expressions (beforeEnd tokens)
  rcases step : Parser.expression (beforeEnd tokens) with ⟨reports, _ | ⟨token, rest⟩, outcome⟩ <;>
    rw [step] at yields <;> simp only [step] at found <;> cases outcome <;> cases found
  exact yields _ rfl

end Program

end LoxLang
