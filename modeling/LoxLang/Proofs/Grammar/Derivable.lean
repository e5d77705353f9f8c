import LoxLang.Proofs.Grammar.Passage
import LoxLang.Proofs.Grammar.Rules
import Mathlib

/-!
# Readings are derivations

What reads as an expression or a statement without a report derives from the grammar.

A chain or a row of calls is not named by a rule but by a part of one, so every phrase gets the
form that its tokens derive from.

* `Phrase.form`, `Passage.form` — the forms.
* **`Phrase.Reads.derivable`**, **`Passage.Reads.derivable`** — the tokens that are taken derive from
  them.
-/

namespace LoxLang

open Form

/-- The rule for operands of these rows of operators. -/
def operandRule (levels : List Level) : Rule :=
  match levels.length with
  | 0 => .unary
  | 1 => .factor
  | 2 => .term
  | 3 => .comparison
  | 4 => .equality
  | 5 => .logicAnd
  | _ => .logicOr

lemma grammar_operandRule {level : Level} {tighter : List Level}
    (suffix : level :: tighter <:+ Level.all) :
    grammar (operandRule (level :: tighter)) = row level.operators (operandRule tighter) := by
  rw [← List.mem_tails] at suffix
  simp only [Level.all, List.tails, List.mem_cons, List.cons.injEq, reduceCtorEq,
    List.not_mem_nil, or_false] at suffix
  rcases suffix with ⟨rfl, rfl⟩ | ⟨rfl, rfl⟩ | ⟨rfl, rfl⟩ | ⟨rfl, rfl⟩ | ⟨rfl, rfl⟩ | ⟨rfl, rfl⟩ <;> rfl

/-- Elements of a list behind `count` others, with commas between them. -/
def listedAfter (count : Nat) (element : Form) : Form :=
  inOrder [element, upTo (maxArguments - 1 - count) (inOrder [token .comma, element])]

lemma listed_last {count : Nat} {element : Form} {tokens rest : List Token}
    (derives : Derivable grammar element tokens rest) :
    Derivable grammar (listedAfter count element) tokens rest :=
  .followed derives (.followed .upTo_none .ended)

lemma listed_more {count : Nat} {element : Form} {comma : Token} {tokens mid rest : List Token}
    (few : count + 1 < maxArguments) (derives : Derivable grammar element tokens (comma :: mid))
    (commaKind : comma.kind = .comma)
    (others : Derivable grammar (listedAfter (count + 1) element) mid rest) :
    Derivable grammar (listedAfter count element) tokens rest := by
  obtain ⟨behind, next, listed⟩ := others.split
  obtain ⟨far, farDerives, ended⟩ := listed.split
  have most : maxArguments - 1 - count = maxArguments - 1 - (count + 1) + 1 := by omega
  refine .followed derives (.followed ?_ ended)
  rw [most]
  exact .upTo_more (.followed (.token commaKind) (.followed next .ended)) farDerives

/-! ## Expressions -/

namespace Phrase

/-- The form that the tokens of a phrase derive from. -/
def form : Phrase → Form
  | assignment _ => rule .assignment
  | operation levels _ => rule (operandRule levels)
  | chain level tighter _ _ =>
    many (inOrder [oneOf (level.operators.map token), rule (operandRule tighter)])
  | unary _ => rule .unary
  | calls _ _ => many (inOrder [token .leftParen, optional (rule .arguments), token .rightParen])
  | arguments count _ => listedAfter count (rule .expression)
  | primary _ => rule .primary

variable {phrase : Phrase} {tokens rest : List Token} {reports : List SyntaxReport}

lemma Reads.count_lt {count : Nat} {values : List Expr}
    (reads : (arguments count values).Reads tokens [] rest) : count < maxArguments := by
  generalize silent : [] = reports at reads
  cases reads with
  | last _ => exact overfull_eq_nil.mp (List.nil_eq_append_iff.mp silent).1
  | more _ _ _ => exact overfull_eq_nil.mp (List.nil_eq_append_iff.mp silent).1

/-- **What reads as a phrase without a report derives from its form.** -/
theorem Reads.derivable (reads : phrase.Reads tokens reports rest) :
    reports = [] → phrase.Proper → Derivable grammar phrase.form tokens rest := by
  induction reads with
  | plain _ ih =>
      intro silent _
      have operation : Derivable grammar (rule .logicOr) _ _ := ih silent List.suffix_rfl
      exact .rule (.oneOf (by simp) operation)
  | assign target equals _ _ ihvalue =>
      intro silent _
      obtain ⟨-, rfl, rfl, nameKind⟩ := target.name_of_variable
      have value := ihvalue silent trivial
      refine .rule (.oneOf (List.mem_cons_self ..) ?_)
      exact .followed (.token nameKind) (.followed (.token equals) (.followed value .ended))
  | mistaken =>
      intro silent _
      simp at silent
  | operand _ ih => exact fun silent _ => ih silent trivial
  | row _ _ ihleft ihchain =>
      intro silent levels
      obtain ⟨rfl, rfl⟩ := List.append_eq_nil_iff.mp silent
      have left := ihleft rfl ((List.suffix_cons _ _).trans levels)
      refine .rule ?_
      rw [grammar_operandRule levels]
      exact .followed left (.followed (ihchain rfl levels) .ended)
  | alone => exact fun _ _ => .many_none
  | link operator _ _ ihright ihchain =>
      intro silent levels
      obtain ⟨rfl, rfl⟩ := List.append_eq_nil_iff.mp silent
      have right := ihright rfl ((List.suffix_cons _ _).trans levels)
      refine .many_more ?_ (ihchain rfl levels)
      exact .followed (.oneOf_token _ operator) (.followed right .ended)
  | sign operator _ ih =>
      intro silent _
      refine .rule (.oneOf (List.mem_cons_self ..) ?_)
      exact .followed (.oneOf_token [.bang, .minus] operator)
        (.followed (ih silent trivial) .ended)
  | callee _ _ ihcallee ihcalls =>
      intro silent _
      obtain ⟨rfl, rfl⟩ := List.append_eq_nil_iff.mp silent
      have call : Derivable grammar (rule .call) _ _ :=
        .rule (.followed (ihcallee rfl trivial) (.followed (ihcalls rfl trivial) .ended))
      exact .rule (.oneOf (by simp) call)
  | uncalled => exact fun _ _ => .many_none
  | calledBare opening paren _ ih =>
      intro silent _
      refine .many_more ?_ (ih silent trivial)
      exact .followed (.token opening) (.followed .omitted (.followed (.token paren) .ended))
  | called opening _ paren _ iharguments ihcalls =>
      intro silent _
      obtain ⟨rfl, rfl⟩ := List.append_eq_nil_iff.mp silent
      have arguments : Derivable grammar (rule .arguments) _ _ := .rule (iharguments rfl trivial)
      refine .many_more ?_ (ihcalls rfl trivial)
      exact .followed (.token opening) (.followed (.given arguments)
        (.followed (.token paren) .ended))
  | last _ ih =>
      intro silent _
      obtain ⟨-, value⟩ := List.append_eq_nil_iff.mp silent
      exact listed_last (.rule (ih value trivial))
  | more _ comma values ihvalue ihvalues =>
      intro silent _
      obtain ⟨-, parts⟩ := List.append_eq_nil_iff.mp silent
      obtain ⟨rfl, rfl⟩ := List.append_eq_nil_iff.mp parts
      have value : Derivable grammar (rule .expression) _ _ := .rule (ihvalue rfl trivial)
      exact listed_more values.count_lt value comma (ihvalues rfl trivial)
  | literal value =>
      intro _ _
      refine .rule (.oneOf ?_ (.token rfl))
      have kind := kind_of_constant value
      simp only [literalKinds, List.mem_cons, List.not_mem_nil, or_false] at kind
      rcases kind with kind | kind | kind | kind | kind <;> simp [kind]
  | name token => exact fun _ _ => .rule (.oneOf (by simp) (.token token))
  | group opening _ closing ih =>
      intro silent _
      have inner : Derivable grammar (rule .expression) _ _ := .rule (ih silent trivial)
      refine .rule (.oneOf ?_ (.followed (.token opening) (.followed inner
        (.followed (.token closing) .ended))))
      simp

end Phrase

/-! ## Parts of statements -/

section Parts

variable {tokens rest : List Token} {reports : List SyntaxReport}

lemma Expr.Reads.derivable {value : Expr} (reads : value.Reads tokens [] rest) :
    Derivable grammar (rule .expression) tokens rest :=
  .rule (Phrase.Reads.derivable reads rfl trivial)

lemma ClauseReads.derivable {value : Option Expr} (reads : ClauseReads value tokens [] rest) :
    Derivable grammar (optional (rule .expression)) tokens rest := by
  cases reads with
  | omitted => exact .omitted
  | given valueDerives => exact .given valueDerives.derivable

lemma VariableReads.derivable {stmt : Stmt} {keyword : Token}
    (keywordKind : keyword.kind = .keyword .var) (reads : VariableReads stmt tokens [] rest) :
    Derivable grammar (rule .varDecl) (keyword :: tokens) rest := by
  refine .rule (.followed (.token keywordKind) ?_)
  cases reads with
  | bare name semicolon =>
      exact .followed (.token name) (.followed .omitted (.followed (.token semicolon) .ended))
  | initialized name equals value semicolon =>
      refine .followed (.token name) (.followed (.given ?_) (.followed (.token semicolon) .ended))
      exact .followed (.token equals) (.followed value.derivable .ended)

/-- A condition in front of what goes on. -/
lemma ConditionReads.derivable {value : Expr} {forms : List Form} {mid : List Token}
    (reads : ConditionReads value tokens [] mid)
    (formsDerive : Derivable grammar (inOrder forms) mid rest) :
    Derivable grammar (inOrder (token .leftParen :: rule .expression :: token .rightParen :: forms))
      tokens rest := by
  cases reads with
  | condition opening valueDerives closing =>
      exact .followed (.token opening) (.followed valueDerives.derivable
        (.followed (.token closing) formsDerive))

lemma ParametersRead.count_lt {count : Nat} {names : List Token}
    (reads : ParametersRead count names tokens [] rest) : count < maxArguments := by
  generalize silent : [] = reports at reads
  cases reads with
  | last _ => exact overfull_eq_nil.mp silent.symm
  | more _ _ _ => exact overfull_eq_nil.mp (List.nil_eq_append_iff.mp silent).1

lemma ParametersRead.derivable {count : Nat} {names : List Token}
    (reads : ParametersRead count names tokens reports rest) :
    reports = [] → Derivable grammar (listedAfter count (token .identifier)) tokens rest := by
  induction reads with
  | last name => exact fun _ => listed_last (.token name)
  | more name comma namesRead ih =>
      intro silent
      obtain ⟨-, rfl⟩ := List.append_eq_nil_iff.mp silent
      exact listed_more namesRead.count_lt (.token name) comma (ih rfl)

lemma InitializerReads.derivable {first : Option Stmt}
    (reads : InitializerReads first tokens [] rest) :
    Derivable grammar (oneOf [rule .varDecl, rule .exprStmt, token .semicolon]) tokens rest := by
  cases reads with
  | omitted semicolon =>
      have none_ : Derivable grammar (token .semicolon) _ rest := .token semicolon
      exact .oneOf (by simp) none_
  | declared keyword stmt => exact .oneOf (by simp) (stmt.derivable keyword)
  | evaluated value semicolon =>
      have stmt : Derivable grammar (rule .exprStmt) tokens rest :=
        .rule (.followed value.derivable (.followed (.token semicolon) .ended))
      exact .oneOf (by simp) stmt

lemma ForReads.derivable {initializer : Option Stmt} {condition increment : Option Expr}
    {keyword : Token} {mid : List Token} (keywordKind : keyword.kind = .keyword .for_)
    (reads : ForReads initializer condition increment tokens [] mid)
    (body : Derivable grammar (rule .statement) mid rest) :
    Derivable grammar (rule .forStmt) (keyword :: tokens) rest := by
  generalize silent : [] = reports at reads
  cases reads with
  | clauses opening initializerReads conditionReads semicolon incrementReads closing =>
      obtain ⟨rfl, parts⟩ := List.nil_eq_append_iff.mp silent
      obtain ⟨rfl, rfl⟩ := List.append_eq_nil_iff.mp parts
      refine .rule (.followed (.token keywordKind) (.followed (.token opening) ?_))
      refine .followed initializerReads.derivable (.followed conditionReads.derivable ?_)
      refine .followed (.token semicolon) (.followed incrementReads.derivable ?_)
      exact .followed (.token closing) (.followed body .ended)

end Parts

/-! ## Statements -/

namespace Passage

/-- The form that the tokens of a passage derive from. -/
def form : Passage → Form
  | declaration _ => rule .declaration
  | statement _ _ => rule .statement
  | declarations _ => many (rule .declaration)

variable {passage : Passage} {tokens mid rest : List Token} {reports : List SyntaxReport}

/-- A body in braces. -/
lemma derivable_block {opening closing : Token} (openingKind : opening.kind = .leftBrace)
    (body : Derivable grammar (many (rule .declaration)) tokens (closing :: rest))
    (closingKind : closing.kind = .rightBrace) :
    Derivable grammar (rule .block) (opening :: tokens) rest :=
  .rule (.followed (.token openingKind) (.followed body (.followed (.token closingKind) .ended)))

lemma derivable_function {keyword name closing : Token} {names : List Token}
    (keywordKind : keyword.kind = .keyword .fun_) (reads : SignatureReads name names tokens [] mid)
    (body : Derivable grammar (many (rule .declaration)) mid (closing :: rest))
    (closingKind : closing.kind = .rightBrace) :
    Derivable grammar (rule .funDecl) (keyword :: tokens) rest := by
  refine .rule (.followed (.token keywordKind) ?_)
  cases reads with
  | bare nameKind opening paren brace =>
      have block := derivable_block brace body closingKind
      exact .followed (.token nameKind) (.followed (.token opening) (.followed .omitted
        (.followed (.token paren) (.followed block .ended))))
  | listed nameKind opening namesRead paren brace =>
      have block := derivable_block brace body closingKind
      have parameters : Derivable grammar (rule .parameters) _ _ := .rule (namesRead.derivable rfl)
      exact .followed (.token nameKind) (.followed (.token opening) (.followed (.given parameters)
        (.followed (.token paren) (.followed block .ended))))

/-- A statement is one of the forms of statements. -/
lemma derivable_statement (name : Rule)
    (nameKind : name ∈ [Rule.exprStmt, .printStmt, .block, .ifStmt, .whileStmt, .forStmt, .returnStmt])
    (derives : Derivable grammar (rule name) tokens rest) :
    Derivable grammar (rule .statement) tokens rest := by
  refine .rule (.oneOf ?_ derives)
  simpa using nameKind

/-- **What reads as a passage without a report derives from its form.** -/
theorem Reads.derivable (reads : passage.Reads tokens reports rest) :
    reports = [] → Derivable grammar passage.form tokens rest := by
  induction reads with
  | function keyword signature _ closing ih =>
      intro silent
      obtain ⟨rfl, rfl⟩ := List.append_eq_nil_iff.mp silent
      have functionDerives := derivable_function keyword signature (ih rfl) closing
      exact .rule (.oneOf (by simp) functionDerives)
  | «variable» keyword stmt =>
      rintro rfl
      exact .rule (.oneOf (by simp) (stmt.derivable keyword))
  | plain _ ih =>
      intro silent
      have stmt : Derivable grammar (rule .statement) _ _ := ih silent
      exact .rule (.oneOf (by simp) stmt)
  | expression value semicolon =>
      rintro rfl
      refine derivable_statement .exprStmt (by simp) (.rule ?_)
      exact .followed value.derivable (.followed (.token semicolon) .ended)
  | print keyword value semicolon =>
      rintro rfl
      refine derivable_statement .printStmt (by simp) (.rule ?_)
      exact .followed (.token keyword) (.followed value.derivable
        (.followed (.token semicolon) .ended))
  | return_ keyword value semicolon =>
      rintro rfl
      refine derivable_statement .returnStmt (by simp) (.rule ?_)
      exact .followed (.token keyword) (.followed value.derivable
        (.followed (.token semicolon) .ended))
  | block opening _ closing ih =>
      intro silent
      exact derivable_statement .block (by simp) (derivable_block opening (ih silent) closing)
  | loop keyword condition _ ih =>
      intro silent
      obtain ⟨rfl, rfl⟩ := List.append_eq_nil_iff.mp silent
      refine derivable_statement .whileStmt (by simp) (.rule ?_)
      exact .followed (.token keyword) (condition.derivable (.followed (ih rfl) .ended))
  | forLoop keyword clauses _ ih =>
      intro silent
      obtain ⟨rfl, rfl⟩ := List.append_eq_nil_iff.mp silent
      exact derivable_statement .forStmt (by simp) (clauses.derivable keyword (ih rfl))
  | branch keyword condition _ ih =>
      intro silent
      obtain ⟨rfl, rfl⟩ := List.append_eq_nil_iff.mp silent
      refine derivable_statement .ifStmt (by simp) (.rule ?_)
      exact .followed (.token keyword) (condition.derivable (.followed (ih rfl)
        (.followed .omitted .ended)))
  | branchElse keyword condition _ otherwise _ ihconsequent ihalternative =>
      intro silent
      obtain ⟨rfl, parts⟩ := List.append_eq_nil_iff.mp silent
      obtain ⟨rfl, rfl⟩ := List.append_eq_nil_iff.mp parts
      have alternative := Derivable.followed (.token otherwise)
        (.followed (ihalternative rfl) .ended)
      refine derivable_statement .ifStmt (by simp) (.rule ?_)
      exact .followed (.token keyword) (condition.derivable (.followed (ihconsequent rfl)
        (.followed (.given alternative) .ended)))
  | done => exact fun _ => .many_none
  | next _ _ ihfirst ihothers =>
      intro silent
      obtain ⟨rfl, rfl⟩ := List.append_eq_nil_iff.mp silent
      exact .many_more (ihfirst rfl) (ihothers rfl)

end Passage

end LoxLang
