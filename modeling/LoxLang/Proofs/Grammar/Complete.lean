import LoxLang.Proofs.Grammar.Passage
import Mathlib

/-!
# What is there is read

The parser finds every reading of the tokens ahead, if the token behind it could not be read as more
of the same.  Its allowance is enough for that: a function counts down to another one at most eleven
times before a token is taken, and each token grants sixteen.

* `continuing` — the kinds that go on with an operation.
* `Phrase.Found` — how a phrase is read, with the steps that this takes.
* **`Phrase.Reads.found`**, **`Passage.Reads.found`** — every reading is found.
-/

namespace LoxLang

/-- The kinds of tokens that go on with operands of these rows. -/
def continuing (levels : List Level) : List Kind := .leftParen :: levels.flatMap Level.operators

/-- The kinds of tokens that go on with an expression. -/
def expressionContinuing : List Kind := .equal :: continuing Level.all

lemma continuing_mono (level : Level) (tighter : List Level) :
    continuing tighter ⊆ continuing (level :: tighter) := by
  intro kind same
  simp only [continuing, List.flatMap_cons, List.mem_cons, List.mem_append] at same ⊢
  tauto

/-- No operator of a row goes on with operands of the tighter rows. -/
lemma operators_stop {level : Level} {tighter : List Level} (suffix : level :: tighter <:+ Level.all) :
    ∀ kind ∈ level.operators, kind ∉ continuing tighter := by
  rw [← List.mem_tails] at suffix
  simp only [Level.all, List.tails, List.mem_cons, List.cons.injEq, reduceCtorEq,
    List.not_mem_nil, or_false] at suffix
  rcases suffix with ⟨rfl, rfl⟩ | ⟨rfl, rfl⟩ | ⟨rfl, rfl⟩ | ⟨rfl, rfl⟩ | ⟨rfl, rfl⟩ | ⟨rfl, rfl⟩ <;>
    decide

/-- A part that takes a token leaves fewer. -/
lemma length_lt_of_opens {P : Token → Prop} {tokens rest : List Token}
    (given : ∃ token mid, tokens = token :: mid ∧ rest <:+ mid ∧ P token) :
    rest.length < tokens.length := by
  obtain ⟨token, mid, rfl, suffix, _⟩ := given
  have := suffix.length_le
  rw [List.length_cons]
  omega

/-- A part does not start with a kind that none of its kind starts with. -/
lemma stops_of_opens {firsts kinds : List Kind} {tokens rest : List Token}
    (given : ∃ token mid, tokens = token :: mid ∧ rest <:+ mid ∧ token.kind ∈ firsts)
    (disjoint : ∀ kind ∈ firsts, kind ∉ kinds) : Stops kinds tokens := by
  obtain ⟨token, mid, rfl, _, same⟩ := given
  exact stops_cons.mpr (disjoint _ same)

lemma stops_of_kind {kinds : List Kind} {kind : Kind} {token : Token} {rest : List Token}
    (same : token.kind = kind) (outside : kind ∉ kinds) : Stops kinds (token :: rest) := by
  rw [stops_cons, same]
  exact outside

namespace Phrase

open LoxLang.Parser

/-- The phrase is what the parser reads, within its allowance, unless the next token goes on. -/
def Found (tokens : List Token) (reports : List SyntaxReport) (rest : List Token) : Phrase → Prop
  | assignment value => Stops expressionContinuing rest →
      ∀ n, 16 * tokens.length ≤ n → Gives (Parser.assignment n) tokens reports rest value
  | operation levels value => levels <:+ Level.all → Stops (continuing levels) rest →
      ∀ n, 16 * tokens.length + levels.length ≤ n + 8 →
        Gives (Parser.operation n levels) tokens reports rest value
  | chain level tighter left value => level :: tighter <:+ Level.all →
      Stops (continuing (level :: tighter)) rest →
      ∀ n, 16 * tokens.length + 1 ≤ n →
        Gives (Parser.chain n level tighter left) tokens reports rest value
  | unary value => Stops [.leftParen] rest →
      ∀ n, 16 * tokens.length ≤ n + 9 → Gives (Parser.unary n) tokens reports rest value
  | calls callee value => Stops [.leftParen] rest →
      ∀ n, 16 * tokens.length + 1 ≤ n → Gives (Parser.calls n callee) tokens reports rest value
  | arguments count values => Stops (.comma :: expressionContinuing) rest →
      ∀ n, 16 * tokens.length + 1 ≤ n →
        Gives (Parser.arguments n count) tokens reports rest values
  | primary value =>
      ∀ n, 16 * tokens.length ≤ n + 10 → Gives (Parser.primary n) tokens reports rest value

section Steps

variable {tokens mid rest : List Token} {reports before after : List SyntaxReport}
  {level : Level} {tighter : List Level} {left right value : Expr} {count : Nat}

lemma stops_operand (reads : (chain level tighter left value).Reads tokens reports rest)
    (levels : level :: tighter <:+ Level.all)
    (stops : Stops (continuing (level :: tighter)) rest) : Stops (continuing tighter) tokens := by
  rcases reads.opens with rfl | ⟨operator, behind, rfl, _, operatorListed⟩
  · exact stops.mono (continuing_mono level tighter)
  · exact stops_cons.mpr (operators_stop levels _ operatorListed)

lemma Found.plain (reads : (operation Level.all value).Reads tokens reports rest)
    (ih : (operation Level.all value).Found tokens reports rest) :
    (assignment value).Found tokens reports rest := by
  intro stops n enough
  have length := length_lt_of_opens reads.opens
  cases n with
  | zero => omega
  | succ n =>
      rw [Parser.assignment, gives_bind]
      refine ⟨reports, rest, value, [], ?_, ?_, by simp⟩
      · refine ih List.suffix_rfl (stops.mono (List.subset_cons_self _ _)) n ?_
        simp only [Level.all, List.length_cons, List.length_nil]
        omega
      · rw [gives_ahead, gives_accept]
        refine Or.inr ⟨stops.mono ?_, by simp⟩
        simp [expressionContinuing]

lemma operation_before_equals {target : Expr} {equals : Token} {n : Nat}
    (ih : (operation Level.all target).Found tokens before (equals :: mid))
    (equalsKind : equals.kind = .equal) (enough : 16 * tokens.length ≤ n + 1) :
    Gives (Parser.operation n Level.all) tokens before (equals :: mid) target := by
  refine ih List.suffix_rfl (stops_of_kind equalsKind (by decide)) n ?_
  simp only [Level.all, List.length_cons, List.length_nil]
  omega

lemma Found.assign {name equals : Token} {hops : Option Nat}
    (reads : (operation Level.all (.variable name hops)).Reads tokens before (equals :: mid))
    (ih : (operation Level.all (.variable name hops)).Found tokens before (equals :: mid))
    (equalsKind : equals.kind = .equal) (ihvalue : (assignment value).Found mid after rest) :
    (assignment (.assign name value none)).Found tokens (before ++ after) rest := by
  intro stops n enough
  have length := length_lt_of_opens reads.opens
  simp only [List.length_cons] at length
  cases n with
  | zero => omega
  | succ n =>
      rw [Parser.assignment]
      refine (operation_before_equals ih equalsKind enough).bind ?_
      rw [gives_ahead]
      exact Gives.accepted equalsKind (ihvalue stops n (by omega)).returned

lemma Found.mistaken {target : Expr} {equals : Token}
    (reads : (operation Level.all target).Reads tokens before (equals :: mid))
    (ih : (operation Level.all target).Found tokens before (equals :: mid))
    (equalsKind : equals.kind = .equal) (unassignable : ∀ name hops, target ≠ .variable name hops)
    (ihvalue : (assignment value).Found mid after rest) :
    (assignment target).Found tokens
      (before ++ (after ++ [⟨.invalidTarget, equals :: mid⟩])) rest := by
  intro stops n enough
  have length := length_lt_of_opens reads.opens
  simp only [List.length_cons] at length
  cases n with
  | zero => omega
  | succ n =>
      rw [Parser.assignment]
      refine (operation_before_equals ih equalsKind enough).bind ?_
      rw [gives_ahead]
      refine Gives.accepted equalsKind ((ihvalue stops n (by omega)).bind ?_)
      cases target with
      | «variable» name hops => exact absurd rfl (unassignable name hops)
      | _ => rfl

lemma Found.operand (reads : (unary value).Reads tokens reports rest)
    (ih : (unary value).Found tokens reports rest) :
    (operation [] value).Found tokens reports rest := by
  intro _ stops n enough
  have length := length_lt_of_opens reads.opens
  cases n with
  | zero => simp at enough; omega
  | succ n => exact ih stops n (by simp at enough; omega)

lemma Found.row (reads : (operation tighter left).Reads tokens before mid)
    (ih : (operation tighter left).Found tokens before mid)
    (chainReads : (chain level tighter left value).Reads mid after rest)
    (ihchain : (chain level tighter left value).Found mid after rest) :
    (operation (level :: tighter) value).Found tokens (before ++ after) rest := by
  intro levels stops n enough
  have length := length_lt_of_opens reads.opens
  simp only [List.length_cons] at enough
  cases n with
  | zero => omega
  | succ n =>
      rw [Parser.operation]
      have tighterSuffix := (List.suffix_cons level tighter).trans levels
      have leftGives := ih tighterSuffix (stops_operand chainReads levels stops) n (by omega)
      exact leftGives.bind (ihchain levels stops n (by omega))

lemma Found.alone : (chain level tighter value value).Found rest [] rest := by
  intro _ stops n enough
  cases n with
  | zero => omega
  | succ n =>
      rw [Parser.chain, gives_acceptAny]
      refine Or.inr ⟨stops.mono ?_, by simp⟩
      intro kind same
      simp [continuing, same]

lemma Found.link {operator : Token} (operatorListed : operator.kind ∈ level.operators)
    (reads : (operation tighter right).Reads tokens before mid)
    (ih : (operation tighter right).Found tokens before mid)
    (chainReads : (chain level tighter (level.node left operator right) value).Reads mid after rest)
    (ihchain : (chain level tighter (level.node left operator right) value).Found mid after rest) :
    (chain level tighter left value).Found (operator :: tokens) (before ++ after) rest := by
  intro levels stops n enough
  have length := length_lt_of_opens reads.opens
  have few := levels.length_le
  simp only [Level.all, List.length_cons, List.length_nil] at enough few
  cases n with
  | zero => omega
  | succ n =>
      rw [Parser.chain, gives_acceptAny]
      refine Or.inl ⟨operator, tokens, rfl, operatorListed, ?_⟩
      have tighterSuffix := (List.suffix_cons level tighter).trans levels
      have rightGives := ih tighterSuffix (stops_operand chainReads levels stops) n (by omega)
      exact rightGives.bind (ihchain levels stops n (by omega))

lemma Found.sign {operator : Token} {operand : Expr}
    (operatorListed : operator.kind ∈ [Kind.bang, .minus])
    (ih : (unary operand).Found tokens reports rest) :
    (unary (.unary operator operand)).Found (operator :: tokens) reports rest := by
  intro stops n enough
  rw [List.length_cons] at enough
  cases n with
  | zero => omega
  | succ n =>
      rw [Parser.unary, gives_acceptAny]
      exact Or.inl ⟨operator, tokens, rfl, operatorListed, (ih stops n (by omega)).returned⟩

lemma Found.callee {callee : Expr} (reads : (primary callee).Reads tokens before mid)
    (ih : (primary callee).Found tokens before mid)
    (ihcalls : (calls callee value).Found mid after rest) :
    (unary value).Found tokens (before ++ after) rest := by
  intro stops n enough
  have length := length_lt_of_opens reads.opens
  cases n with
  | zero => omega
  | succ n =>
      rw [Parser.unary, gives_acceptAny]
      refine Or.inr ⟨stops_of_opens reads.opens (by decide), ?_⟩
      exact (ih n (by omega)).bind (ihcalls stops n (by omega))

lemma Found.uncalled : (calls value value).Found rest [] rest := by
  intro stops n enough
  cases n with
  | zero => omega
  | succ n =>
      rw [Parser.calls]
      exact Gives.passed stops (gives_pure.mpr ⟨rfl, rfl, rfl⟩)

lemma Found.calledBare {callee : Expr} {opening paren : Token}
    (openingKind : opening.kind = .leftParen) (parenKind : paren.kind = .rightParen)
    (ih : (calls (.call callee paren []) value).Found tokens reports rest) :
    (calls callee value).Found (opening :: paren :: tokens) reports rest := by
  intro stops n enough
  simp only [List.length_cons] at enough
  cases n with
  | zero => omega
  | succ n =>
      rw [Parser.calls]
      refine Gives.accepted openingKind ?_
      rw [gives_isNext]
      refine Or.inl ⟨paren, tokens, rfl, parenKind, ?_⟩
      simp only [↓reduceIte]
      rw [← List.nil_append reports]
      refine Gives.bind (gives_pure.mpr ⟨rfl, rfl, rfl⟩) ?_
      exact Gives.expected parenKind (ih stops n (by omega))

lemma Found.called {callee : Expr} {opening paren : Token} {values : List Expr}
    (openingKind : opening.kind = .leftParen)
    (reads : (arguments 0 values).Reads tokens before (paren :: mid))
    (ih : (arguments 0 values).Found tokens before (paren :: mid))
    (parenKind : paren.kind = .rightParen)
    (ihcalls : (calls (.call callee paren values) value).Found mid after rest) :
    (calls callee value).Found (opening :: tokens) (before ++ after) rest := by
  intro stops n enough
  have length := length_lt_of_opens reads.opens
  simp only [List.length_cons] at enough length
  cases n with
  | zero => omega
  | succ n =>
      rw [Parser.calls]
      refine Gives.accepted openingKind ?_
      rw [gives_isNext]
      refine Or.inr ⟨stops_of_opens reads.opens (by decide), ?_⟩
      simp only [Bool.false_eq_true, ↓reduceIte]
      have valuesGive := ih (stops_of_kind parenKind (by decide)) n (by omega)
      exact valuesGive.bind (Gives.expected parenKind (ihcalls stops n (by omega)))

lemma Found.last (ih : (assignment value).Found tokens reports rest) :
    (arguments count [value]).Found tokens
      (overfull .tooManyArguments count tokens ++ reports) rest := by
  intro stops n enough
  cases n with
  | zero => omega
  | succ n =>
      rw [Parser.arguments, gives_ahead]
      dsimp only
      rw [gives_overfull]
      refine ⟨reports, ?_, rfl⟩
      have last := ih (stops.mono (List.subset_cons_self _ _)) n (by omega)
      rw [← List.append_nil reports]
      refine last.bind (Gives.passed (stops.mono (by simp)) ?_)
      exact gives_pure.mpr ⟨rfl, rfl, rfl⟩

lemma Found.more {values : List Expr} {comma : Token}
    (reads : (assignment value).Reads tokens before (comma :: mid))
    (ih : (assignment value).Found tokens before (comma :: mid)) (commaKind : comma.kind = .comma)
    (ihvalues : (arguments (count + 1) values).Found mid after rest) :
    (arguments count (value :: values)).Found tokens
      (overfull .tooManyArguments count tokens ++ (before ++ after)) rest := by
  intro stops n enough
  have length := length_lt_of_opens reads.opens
  rw [List.length_cons] at length
  cases n with
  | zero => omega
  | succ n =>
      rw [Parser.arguments, gives_ahead]
      dsimp only
      rw [gives_overfull]
      refine ⟨before ++ after, ?_, rfl⟩
      have first := ih (stops_of_kind commaKind (by decide)) n (by omega)
      exact first.bind (Gives.accepted commaKind (ihvalues stops n (by omega)).returned)

lemma Found.literal {token : Token} {constant : Constant}
    (constantOf : Constant.ofToken? token = some constant) :
    (primary (.literal constant)).Found (token :: rest) [] rest := by
  intro n enough
  rw [List.length_cons] at enough
  cases n with
  | zero => omega
  | succ n =>
      rw [Parser.primary, gives_acceptMap]
      exact Or.inl ⟨token, rest, constant, rfl, constantOf, by simp⟩

lemma Found.name {token : Token} (tokenKind : token.kind = .identifier) :
    (primary (.variable token none)).Found (token :: rest) [] rest := by
  intro n enough
  rw [List.length_cons] at enough
  cases n with
  | zero => omega
  | succ n =>
      rw [Parser.primary, gives_acceptMap]
      refine Or.inr ⟨by simp [Constant.ofToken?, tokenKind], ?_⟩
      exact Gives.accepted tokenKind (gives_pure.mpr ⟨rfl, rfl, rfl⟩)

lemma Found.group {opening closing : Token} (openingKind : opening.kind = .leftParen)
    (ih : (assignment value).Found tokens reports (closing :: rest))
    (closingKind : closing.kind = .rightParen) :
    (primary (.group value)).Found (opening :: tokens) reports rest := by
  intro n enough
  rw [List.length_cons] at enough
  cases n with
  | zero => omega
  | succ n =>
      rw [Parser.primary, gives_acceptMap]
      refine Or.inr ⟨by simp [Constant.ofToken?, openingKind], ?_⟩
      refine Gives.passed (stops_of_kind openingKind (by decide)) (Gives.accepted openingKind ?_)
      exact (ih (stops_of_kind closingKind (by decide)) n (by omega)).closed closingKind

end Steps

/-- **Every reading of an expression is found.** -/
theorem Reads.found {phrase : Phrase} {tokens rest : List Token} {reports : List SyntaxReport}
    (reads : phrase.Reads tokens reports rest) : phrase.Found tokens reports rest := by
  induction reads with
  | plain reads ih => exact Found.plain reads ih
  | assign reads equals _ ih ihvalue => exact Found.assign reads ih equals ihvalue
  | mistaken reads equals target _ ih ihvalue => exact Found.mistaken reads ih equals target ihvalue
  | operand reads ih => exact Found.operand reads ih
  | row reads chain ih ihchain => exact Found.row reads ih chain ihchain
  | alone => exact Found.alone
  | link operator reads chain ih ihchain => exact Found.link operator reads ih chain ihchain
  | sign operator _ ih => exact Found.sign operator ih
  | callee reads _ ih ihcalls => exact Found.callee reads ih ihcalls
  | uncalled => exact Found.uncalled
  | calledBare opening paren _ ih => exact Found.calledBare opening paren ih
  | called opening reads paren _ ih ihcalls => exact Found.called opening reads ih paren ihcalls
  | last _ ih => exact Found.last ih
  | more reads comma _ ih ihvalues => exact Found.more reads ih comma ihvalues
  | literal constant => exact Found.literal constant
  | name token => exact Found.name token
  | group opening _ closing ih => exact Found.group opening ih closing

end Phrase

/-- **Every reading of an expression is what `Parser.expression` reads.** -/
theorem Expr.Reads.found {value : Expr} {tokens rest : List Token} {reports : List SyntaxReport}
    (reads : value.Reads tokens reports rest) (stops : Stops expressionContinuing rest) :
    Parser.Gives Parser.expression tokens reports rest value := by
  rw [Parser.gives_expression]
  refine Phrase.Reads.found reads stops _ ?_
  rw [Parser.allowance]
  omega

/-! ## Parts of statements -/

section Parts

open LoxLang.Parser

variable {tokens rest : List Token} {reports : List SyntaxReport}

/-- A clause is found in front of the mark that ends it. -/
lemma ClauseReads.found {value : Option Expr} {closing : Kind} {token : Token}
    (reads : ClauseReads value tokens reports (token :: rest)) (tokenKind : token.kind = closing)
    (ends : closing ∉ expressionContinuing) (opens : closing ∉ Phrase.openingKinds) :
    Gives (clause closing) tokens reports (token :: rest) value := by
  rw [clause, gives_isNext]
  cases reads with
  | omitted => exact Or.inl ⟨token, rest, rfl, tokenKind, by simp⟩
  | given valueReads =>
      refine Or.inr ⟨stops_of_opens valueReads.opens ?_, ?_⟩
      · rintro kind same mem
        rw [List.mem_singleton] at mem
        exact opens (mem ▸ same)
      · exact gives_map.mpr ⟨_, valueReads.found (stops_of_kind tokenKind ends), rfl⟩

lemma VariableReads.found {stmt : Stmt} (reads : VariableReads stmt tokens reports rest) :
    Gives variableDeclaration tokens reports rest stmt := by
  rw [variableDeclaration]
  cases reads with
  | @bare name semicolon rest nameKind semicolonKind =>
      refine Gives.expected nameKind (Gives.passed (stops_of_kind semicolonKind (by decide)) ?_)
      have none_ : Gives (pure none : Parser (Option Expr)) (semicolon :: rest) [] _ none :=
        gives_pure.mpr ⟨rfl, rfl, rfl⟩
      exact none_.closed semicolonKind
  | @initialized name equals value semicolon behind _ _ nameKind equalsKind valueReads semicolonKind =>
      refine Gives.expected nameKind (Gives.accepted equalsKind ?_)
      have found := valueReads.found (stops_of_kind semicolonKind (by decide))
      have some_ : Gives (some <$> Parser.expression) behind reports _ (some value) :=
        gives_map.mpr ⟨value, found, rfl⟩
      exact some_.closed semicolonKind

lemma ConditionReads.found {value : Expr} (reads : ConditionReads value tokens reports rest)
    (before after : Expectation) :
    Gives (Parser.condition before after) tokens reports rest value := by
  rw [Parser.condition]
  cases reads with
  | condition opening valueReads closing =>
      have found := valueReads.found (stops_of_kind closing (by decide))
      exact Gives.expected opening (found.closed closing)

lemma ParametersRead.found {count : Nat} {names : List Token}
    (reads : ParametersRead count names tokens reports rest) (stops : Stops [.comma] rest) :
    ∀ n, tokens.length ≤ n → Gives (parameters n count) tokens reports rest names := by
  induction reads with
  | @last count name rest nameKind =>
      intro n enough
      rw [List.length_cons] at enough
      cases n with
      | zero => omega
      | succ n =>
          rw [parameters, gives_ahead]
          dsimp only
          rw [gives_overfull]
          refine ⟨[], ?_, by simp⟩
          refine Gives.expected nameKind (Gives.passed stops ?_)
          exact gives_pure.mpr ⟨rfl, rfl, rfl⟩
  | @more count name names comma tokens reports rest nameKind commaKind _ ih =>
      intro n enough
      simp only [List.length_cons] at enough
      cases n with
      | zero => omega
      | succ n =>
          rw [parameters, gives_ahead]
          dsimp only
          rw [gives_overfull]
          refine ⟨reports, ?_, rfl⟩
          refine Gives.expected nameKind (Gives.accepted commaKind ?_)
          exact (ih stops n (by omega)).returned

lemma ParametersRead.opens {count : Nat} {names : List Token}
    (reads : ParametersRead count names tokens reports rest) : Stops [.rightParen] tokens := by
  cases reads with
  | last name => exact stops_of_kind name (by decide)
  | more name => exact stops_of_kind name (by decide)

lemma length_le_allowance (tokens : List Token) : tokens.length ≤ allowance tokens := by
  rw [allowance]
  omega

lemma SignatureReads.found {name : Token} {names : List Token}
    (reads : SignatureReads name names tokens reports rest) :
    Gives signature tokens reports rest (name, names) := by
  rw [signature]
  cases reads with
  | bare nameKind opening closing brace =>
      refine Gives.expected nameKind (Gives.expected opening ?_)
      rw [gives_isNext]
      refine Or.inl ⟨_, _, rfl, closing, ?_⟩
      simp only [↓reduceIte]
      rw [← List.nil_append []]
      refine Gives.bind (gives_pure.mpr ⟨rfl, rfl, rfl⟩) ?_
      refine Gives.expected closing (Gives.expected brace ?_)
      exact gives_pure.mpr ⟨rfl, rfl, rfl⟩
  | listed nameKind opening namesRead closing brace =>
      refine Gives.expected nameKind (Gives.expected opening ?_)
      rw [gives_isNext]
      refine Or.inr ⟨namesRead.opens, ?_⟩
      simp only [Bool.false_eq_true, ↓reduceIte]
      have found := namesRead.found (stops_of_kind closing (by decide)) _ (length_le_allowance _)
      rw [← List.append_nil reports]
      refine Gives.bind (gives_parameters.mpr found) ?_
      refine Gives.expected closing (Gives.expected brace ?_)
      exact gives_pure.mpr ⟨rfl, rfl, rfl⟩

lemma Expr.Reads.found_statement {value : Expr} {semicolon : Token}
    (reads : value.Reads tokens reports (semicolon :: rest))
    (semicolonKind : semicolon.kind = .semicolon) :
    Gives expressionStatement tokens reports rest (.expression value) := by
  rw [expressionStatement]
  exact (reads.found (stops_of_kind semicolonKind (by decide))).closed semicolonKind

lemma InitializerReads.found {first : Option Stmt}
    (reads : InitializerReads first tokens reports rest) :
    Gives forInitializer tokens reports rest first := by
  rw [forInitializer]
  cases reads with
  | omitted semicolon => exact Gives.accepted semicolon (gives_pure.mpr ⟨rfl, rfl, rfl⟩)
  | declared keyword stmt =>
      refine Gives.passed (stops_of_kind keyword (by decide)) (Gives.accepted keyword ?_)
      exact gives_map.mpr ⟨_, stmt.found, rfl⟩
  | evaluated valueReads semicolon =>
      refine Gives.passed (stops_of_opens valueReads.opens (by decide)) ?_
      refine Gives.passed (stops_of_opens valueReads.opens (by decide)) ?_
      exact gives_map.mpr ⟨_, valueReads.found_statement semicolon, rfl⟩

lemma ForReads.found {initializer : Option Stmt} {condition increment : Option Expr}
    (reads : ForReads initializer condition increment tokens reports rest) :
    Gives forClauses tokens reports rest (initializer, condition, increment) := by
  rw [forClauses]
  cases reads with
  | clauses opening initializerReads conditionReads semicolon incrementReads closing =>
      have tested := conditionReads.found semicolon (by decide) (by decide)
      have step := incrementReads.found closing (by decide) (by decide)
      refine Gives.expected opening (initializerReads.found.bind (tested.bind ?_))
      exact Gives.expected semicolon (step.closed closing)

end Parts

/-! ## Statements -/

namespace Passage

open LoxLang.Parser

/-- Declarations end here: at the end of the input, or at the brace that they are read up to. -/
def Ends (closing : Option Kind) (rest : List Token) : Prop :=
  (closing = none ∨ closing = some .rightBrace) ∧ ∀ token ∈ rest.head?, closing = some token.kind

/-- The passage is what the parser reads, within its allowance, unless an `else` goes on with it. -/
def Found (tokens : List Token) (reports : List SyntaxReport) (rest : List Token) : Passage → Prop
  | declaration stmt => Stops [.keyword .else_] rest →
      ∀ n, 4 * tokens.length ≤ n + 1 →
        Gives (Parser.declaration n) tokens reports rest (some stmt)
  | statement isOpen stmt => (isOpen = true → Stops [.keyword .else_] rest) →
      ∀ n, 4 * tokens.length ≤ n + 2 → Gives (Parser.statement n) tokens reports rest stmt
  | declarations stmts => ∀ closing, Ends closing rest →
      ∀ n, 4 * tokens.length ≤ n → Gives (Parser.declarations n closing) tokens reports rest stmts

section Steps

variable {tokens mid far rest : List Token} {reports before between after : List SyntaxReport}

lemma ends_brace {closing : Token} (closingKind : closing.kind = .rightBrace) :
    Ends (some .rightBrace) (closing :: rest) :=
  ⟨Or.inr rfl, by simp [closingKind]⟩

lemma Ends.stops {closing : Option Kind} (holds : Ends closing rest) :
    Stops [.keyword .else_] rest := by
  obtain ⟨closingKind, head⟩ := holds
  intro token tokenKind mem
  have kind := head token tokenKind
  rw [List.mem_singleton] at mem
  rw [mem] at kind
  rcases closingKind with rfl | rfl <;> simp at kind

lemma Found.in_braces {closing : Token} {body : List Stmt}
    (ih : (declarations body).Found tokens reports (closing :: rest))
    (closingKind : closing.kind = .rightBrace) {n : Nat} (enough : 4 * tokens.length + 1 ≤ n) :
    Gives (Parser.block n) tokens reports rest body := by
  cases n with
  | zero => omega
  | succ n =>
      rw [Parser.block]
      exact (ih _ (ends_brace closingKind) n (by omega)).closed closingKind

lemma Found.function {keyword name closing : Token} {names : List Token} {body : List Stmt}
    (keywordKind : keyword.kind = .keyword .fun_)
    (signature : SignatureReads name names tokens before mid)
    (ih : (declarations body).Found mid after (closing :: rest))
    (closingKind : closing.kind = .rightBrace) :
    (declaration (.function name names body)).Found (keyword :: tokens) (before ++ after) rest := by
  intro _ n enough
  have length := signature.suffix.length_le
  rw [List.length_cons] at enough
  cases n with
  | zero => omega
  | succ n =>
      rw [Parser.declaration]
      refine Gives.recovering (Gives.accepted keywordKind ?_)
      exact signature.found.bind (ih.in_braces closingKind (by omega)).returned

lemma Found.variable {keyword : Token} {stmt : Stmt} (keywordKind : keyword.kind = .keyword .var)
    (reads : VariableReads stmt tokens reports rest) :
    (declaration stmt).Found (keyword :: tokens) reports rest := by
  intro _ n enough
  rw [List.length_cons] at enough
  cases n with
  | zero => omega
  | succ n =>
      rw [Parser.declaration]
      refine Gives.recovering (Gives.passed (stops_of_kind keywordKind (by decide)) ?_)
      exact Gives.accepted keywordKind reads.found

lemma Found.plain {isOpen : Bool} {stmt : Stmt}
    (reads : (statement isOpen stmt).Reads tokens reports rest)
    (ih : (statement isOpen stmt).Found tokens reports rest) :
    (declaration stmt).Found tokens reports rest := by
  intro stops n enough
  have length := length_lt_of_opens reads.opens
  cases n with
  | zero => omega
  | succ n =>
      rw [Parser.declaration]
      refine Gives.recovering (Gives.passed (stops_of_opens reads.opens (by decide)) ?_)
      refine Gives.passed (stops_of_opens reads.opens (by decide)) ?_
      exact ih (fun _ => stops) n (by omega)

lemma Found.expression {value : Expr} {semicolon : Token}
    (reads : value.Reads tokens reports (semicolon :: rest))
    (semicolonKind : semicolon.kind = .semicolon) :
    (statement false (.expression value)).Found tokens reports rest := by
  intro _ n enough
  have length := length_lt_of_opens reads.opens
  cases n with
  | zero => omega
  | succ n =>
      rw [Parser.statement, gives_acceptMap]
      refine Or.inr ⟨?_, reads.found_statement semicolonKind⟩
      obtain ⟨token, behind, rfl, _, kind⟩ := reads.opens
      rintro token ⟨rfl⟩
      exact Phrase.ofToken?_eq_none kind

lemma Found.print {keyword semicolon : Token} {value : Expr}
    (keywordKind : keyword.kind = .keyword .print)
    (reads : value.Reads tokens reports (semicolon :: rest))
    (semicolonKind : semicolon.kind = .semicolon) :
    (statement false (.print value)).Found (keyword :: tokens) reports rest := by
  intro _ n enough
  rw [List.length_cons] at enough
  cases n with
  | zero => omega
  | succ n =>
      rw [Parser.statement]
      refine Gives.announced .print keywordKind ?_
      dsimp only
      rw [printStatement]
      exact (reads.found (stops_of_kind semicolonKind (by decide))).closed semicolonKind

lemma Found.return_ {keyword semicolon : Token} {value : Option Expr}
    (keywordKind : keyword.kind = .keyword .return_)
    (reads : ClauseReads value tokens reports (semicolon :: rest))
    (semicolonKind : semicolon.kind = .semicolon) :
    (statement false (.return_ keyword value)).Found (keyword :: tokens) reports rest := by
  intro _ n enough
  rw [List.length_cons] at enough
  cases n with
  | zero => omega
  | succ n =>
      rw [Parser.statement]
      refine Gives.announced (.return_ keyword) ⟨keywordKind, rfl⟩ ?_
      dsimp only
      rw [returnStatement]
      exact (reads.found semicolonKind (by decide) (by decide)).closed semicolonKind

lemma Found.block {opening closing : Token} {body : List Stmt}
    (openingKind : opening.kind = .leftBrace)
    (ih : (declarations body).Found tokens reports (closing :: rest))
    (closingKind : closing.kind = .rightBrace) :
    (statement false (.block body)).Found (opening :: tokens) reports rest := by
  intro _ n enough
  rw [List.length_cons] at enough
  cases n with
  | zero => omega
  | succ n =>
      rw [Parser.statement]
      refine Gives.announced .block openingKind ?_
      exact (ih.in_braces closingKind (by omega)).returned

lemma Found.loop {keyword : Token} {condition : Expr} {isOpen : Bool} {body : Stmt}
    (keywordKind : keyword.kind = .keyword .while_)
    (conditionReads : ConditionReads condition tokens before mid)
    (ih : (statement isOpen body).Found mid after rest) :
    (statement isOpen (.loop condition body)).Found
      (keyword :: tokens) (before ++ after) rest := by
  intro stops n enough
  have length := conditionReads.suffix.length_le
  rw [List.length_cons] at enough
  cases n with
  | zero => omega
  | succ n =>
      rw [Parser.statement]
      refine Gives.announced .loop keywordKind ((conditionReads.found _ _).bind ?_)
      exact (ih stops n (by omega)).returned

lemma Found.forLoop {keyword : Token} {initializer : Option Stmt}
    {condition increment : Option Expr} {isOpen : Bool} {body : Stmt}
    (keywordKind : keyword.kind = .keyword .for_)
    (clauses : ForReads initializer condition increment tokens before mid)
    (ih : (statement isOpen body).Found mid after rest) :
    (statement isOpen (.forLoop initializer condition increment body)).Found
      (keyword :: tokens) (before ++ after) rest := by
  intro stops n enough
  have length := clauses.suffix.length_le
  rw [List.length_cons] at enough
  cases n with
  | zero => omega
  | succ n =>
      rw [Parser.statement]
      refine Gives.announced .forLoop keywordKind (clauses.found.bind ?_)
      exact (ih stops n (by omega)).returned

lemma Found.branch {keyword : Token} {condition : Expr} {isOpen : Bool} {consequent : Stmt}
    (keywordKind : keyword.kind = .keyword .if_)
    (conditionReads : ConditionReads condition tokens before mid)
    (ih : (statement isOpen consequent).Found mid after rest) :
    (statement true (.branch condition consequent none)).Found
      (keyword :: tokens) (before ++ after) rest := by
  intro stops n enough
  have length := conditionReads.suffix.length_le
  rw [List.length_cons] at enough
  cases n with
  | zero => omega
  | succ n =>
      rw [Parser.statement]
      refine Gives.announced .branch keywordKind ((conditionReads.found _ _).bind ?_)
      rw [← List.append_nil after]
      refine (ih (fun _ => stops rfl) n (by omega)).bind (Gives.passed (stops rfl) ?_)
      exact gives_pure.mpr ⟨rfl, rfl, rfl⟩

lemma Found.branchElse {keyword otherwise : Token} {condition : Expr} {isOpen : Bool}
    {consequent alternative : Stmt} (keywordKind : keyword.kind = .keyword .if_)
    (conditionReads : ConditionReads condition tokens before mid)
    (reads : (statement false consequent).Reads mid between (otherwise :: far))
    (ih : (statement false consequent).Found mid between (otherwise :: far))
    (otherwiseKind : otherwise.kind = .keyword .else_)
    (ihalternative : (statement isOpen alternative).Found far after rest) :
    (statement isOpen (.branch condition consequent (some alternative))).Found
      (keyword :: tokens) (before ++ (between ++ after)) rest := by
  intro stops n enough
  have length := conditionReads.suffix.length_le
  have shorter := length_lt_of_opens reads.opens
  rw [List.length_cons] at enough shorter
  cases n with
  | zero => omega
  | succ n =>
      rw [Parser.statement]
      refine Gives.announced .branch keywordKind ((conditionReads.found _ _).bind ?_)
      refine (ih (by simp) n (by omega)).bind (Gives.accepted otherwiseKind ?_)
      exact (ihalternative stops n (by omega)).returned

lemma Found.done : (declarations []).Found rest [] rest := by
  intro closing ends n enough
  cases n with
  | zero => exact gives_pure.mpr ⟨rfl, rfl, rfl⟩
  | succ n =>
      rw [Parser.declarations, gives_ahead]
      cases rest with
      | nil => exact gives_pure.mpr ⟨rfl, rfl, rfl⟩
      | cons token behind =>
          have closingKind := ends.2 token rfl
          simp [closingKind]

lemma Found.next {first : Stmt} {others : List Stmt}
    (reads : (declaration first).Reads tokens before mid)
    (ih : (declaration first).Found tokens before mid)
    (othersRead : (declarations others).Reads mid after rest)
    (ihothers : (declarations others).Found mid after rest) :
    (declarations (first :: others)).Found tokens (before ++ after) rest := by
  intro closing ends n enough
  have length := length_lt_of_opens reads.opens
  cases n with
  | zero => omega
  | succ n =>
      rw [Parser.declarations, gives_ahead]
      have stops_ : Stops [.keyword .else_] mid := by
        rcases othersRead.opens with rfl | opens
        · exact ends.stops
        · exact stops_of_opens opens (by decide)
      have firstGives := ih stops_ n (by omega)
      have restGives := ihothers closing ends n (by omega)
      obtain ⟨token, behind, rfl, _, kind⟩ := reads.opens
      have closingKind : closing ≠ some token.kind := by
        rintro rfl
        rcases ends.1 with none_ | brace
        · cases none_
        · rw [Option.some.inj brace] at kind
          revert kind
          decide
      simp only [List.head?_cons, if_neg closingKind]
      exact firstGives.bind restGives.returned

end Steps

/-- **Every reading of statements is found.** -/
theorem Reads.found {passage : Passage} {tokens rest : List Token} {reports : List SyntaxReport}
    (reads : passage.Reads tokens reports rest) : passage.Found tokens reports rest := by
  induction reads with
  | function keyword signature _ closing ih =>
      exact Found.function keyword signature ih closing
  | «variable» keyword stmt => exact Found.variable keyword stmt
  | plain reads ih => exact Found.plain reads ih
  | expression valueReads semicolon => exact Found.expression valueReads semicolon
  | print keyword valueReads semicolon => exact Found.print keyword valueReads semicolon
  | return_ keyword valueReads semicolon => exact Found.return_ keyword valueReads semicolon
  | block opening _ closing ih => exact Found.block opening ih closing
  | loop keyword condition _ ih => exact Found.loop keyword condition ih
  | forLoop keyword clauses _ ih => exact Found.forLoop keyword clauses ih
  | branch keyword condition _ ih => exact Found.branch keyword condition ih
  | branchElse keyword condition reads otherwise _ ih ihalternative =>
      exact Found.branchElse keyword condition reads ih otherwise ihalternative
  | done => exact Found.done
  | next reads others ih ihothers => exact Found.next reads ih others ihothers

end Passage

end LoxLang
