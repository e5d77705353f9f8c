import Mathlib
import LoxLang.Proofs.Grammar.Language
import LoxLang.Proofs.Grammar.RoundTrip
import LoxLang.Proofs.Program.Revision

/-!
# Reading joined programs

A reading says of the tokens behind it only that they are left, and of lines nothing at all.  So tokens
read as the same tree on other lines and with other tokens behind them, and where one program ends the
next one can be read.

* `Revision.front` — tokens on other lines with more tokens behind them.
* `Phrase.Reads.revised`, **`Passage.Reads.revised`** — a reading of them, of the revised tree.
* `Passage.Reads.append` — declarations behind declarations.
* **`Program.parse_joined`** — two programs read without reports are read without reports as one.
-/

namespace LoxLang

namespace Revision

/-- Tokens on other lines, with more tokens behind them. -/
def front (r : Revision) (more tokens : List Token) : List Token :=
  tokens.map (Token.revised r) ++ more

@[simp] lemma front_cons (r : Revision) (more : List Token) (token : Token) (tokens : List Token) :
    r.front more (token :: tokens) = token.revised r :: r.front more tokens := rfl

end Revision

/-- A report about tokens on other lines, with more tokens behind them. -/
def SyntaxReport.revised (r : Revision) (more : List Token) (report : SyntaxReport) :
    SyntaxReport :=
  ⟨report.error, r.front more report.ahead⟩

section

variable {r : Revision} {more : List Token}

lemma overfull_revised (error : SyntaxError) (count : Nat) (tokens : List Token) :
    overfull error count (r.front more tokens) =
      (overfull error count tokens).map (SyntaxReport.revised r more) := by
  rw [overfull, overfull]
  split_ifs <;> rfl

/-! ## Expressions -/

namespace Phrase

/-- A phrase with its tree revised. -/
def revised (r : Revision) : Phrase → Phrase
  | assignment value => assignment (value.revised r)
  | operation levels value => operation levels (value.revised r)
  | chain level tighter left value => chain level tighter (left.revised r) (value.revised r)
  | unary value => unary (value.revised r)
  | calls callee value => calls (callee.revised r) (value.revised r)
  | arguments count values => arguments count (Expr.revisedAll r values)
  | primary value => primary (value.revised r)

lemma node_revised {level : Level} (listed : level ∈ Level.all) (left right : Expr)
    (operator : Token) : (level.node left operator right).revised r =
      level.node (left.revised r) (operator.revised r) (right.revised r) := by
  simp only [Level.all, List.mem_cons, List.not_mem_nil, or_false] at listed
  rcases listed with rfl | rfl | rfl | rfl | rfl | rfl <;> rfl

lemma revised_ne_variable {value : Expr} (other : ∀ name hops, value ≠ .variable name hops) :
    ∀ name hops, value.revised r ≠ .variable name hops := by
  intro name hops
  cases value with
  | «variable» name' hops' => exact absurd rfl (other name' hops')
  | _ => exact nofun

/-- **A phrase reads on other lines and with other tokens behind it.** -/
theorem Reads.revised (global : r.hops none = none) {phrase : Phrase} {tokens rest : List Token}
    {reports : List SyntaxReport} (reads : phrase.Reads tokens reports rest) (proper : phrase.Proper) :
    (phrase.revised r).Reads (r.front more tokens) (reports.map (SyntaxReport.revised r more))
      (r.front more rest) := by
  induction reads with
  | plain _ ih => exact .plain (ih List.suffix_rfl)
  | assign _ equals _ ihtarget ihvalue =>
      rw [List.map_append, Phrase.revised, Expr.revised, global]
      exact .assign (ihtarget List.suffix_rfl) equals (ihvalue trivial)
  | mistaken _ equals other _ ihtarget ihvalue =>
      simp only [List.map_append]
      exact .mistaken (ihtarget List.suffix_rfl) equals (revised_ne_variable other) (ihvalue trivial)
  | operand _ ih => exact .operand (ih trivial)
  | row _ _ ihleft ihchain =>
      rw [List.map_append]
      exact .row (ihleft ((List.suffix_cons _ _).trans proper)) (ihchain proper)
  | alone => exact .alone
  | link listed _ _ ihright ihchain =>
      have level := proper.subset List.mem_cons_self
      have chained := ihchain proper
      rw [Phrase.revised, node_revised level] at chained
      rw [List.map_append]
      exact .link listed (ihright ((List.suffix_cons _ _).trans proper)) chained
  | sign listed _ ih => exact .sign listed (ih trivial)
  | callee _ _ ihcallee ihcalls =>
      rw [List.map_append]
      exact .callee (ihcallee trivial) (ihcalls trivial)
  | uncalled => exact .uncalled
  | calledBare opening paren _ ih => exact .calledBare opening paren (ih trivial)
  | called opening _ paren _ iharguments ihcalls =>
      rw [List.map_append]
      exact .called opening (iharguments trivial) paren (ihcalls trivial)
  | last _ ih =>
      rw [List.map_append, ← overfull_revised]
      exact .last (ih trivial)
  | more _ comma _ ihvalue ihvalues =>
      rw [List.map_append, List.map_append, ← overfull_revised]
      exact .more (ihvalue trivial) comma (ihvalues trivial)
  | literal value => exact .literal value
  | name kind =>
      rw [Phrase.revised, Expr.revised, global]
      exact .name kind
  | group opening _ closing ih => exact .group opening (ih trivial) closing

end Phrase

variable {tokens rest : List Token} {reports : List SyntaxReport}

lemma Expr.Reads.revised (global : r.hops none = none) {value : Expr}
    (reads : value.Reads tokens reports rest) : (value.revised r).Reads (r.front more tokens)
      (reports.map (SyntaxReport.revised r more)) (r.front more rest) :=
  Phrase.Reads.revised global reads trivial

/-! ## Parts of statements -/

lemma ClauseReads.revised (global : r.hops none = none) {value : Option Expr}
    (reads : ClauseReads value tokens reports rest) : ClauseReads (value.map (Expr.revised r))
      (r.front more tokens) (reports.map (SyntaxReport.revised r more)) (r.front more rest) := by
  cases reads with
  | omitted => exact .omitted
  | given value => exact .given (value.revised global)

lemma VariableReads.revised (global : r.hops none = none) {stmt : Stmt}
    (reads : VariableReads stmt tokens reports rest) : VariableReads (stmt.revised r)
      (r.front more tokens) (reports.map (SyntaxReport.revised r more)) (r.front more rest) := by
  cases reads with
  | bare name semicolon => exact .bare name semicolon
  | initialized name equals value semicolon =>
      exact .initialized name equals (value.revised global) semicolon

lemma ConditionReads.revised (global : r.hops none = none) {value : Expr}
    (reads : ConditionReads value tokens reports rest) : ConditionReads (value.revised r)
      (r.front more tokens) (reports.map (SyntaxReport.revised r more)) (r.front more rest) := by
  cases reads with
  | condition opening value closing => exact .condition opening (value.revised global) closing

lemma ParametersRead.revised {count : Nat} {names : List Token}
    (reads : ParametersRead count names tokens reports rest) :
    ParametersRead count (names.map (Token.revised r)) (r.front more tokens)
      (reports.map (SyntaxReport.revised r more)) (r.front more rest) := by
  induction reads with
  | last name =>
      rw [← overfull_revised]
      exact .last name
  | more name comma _ ih =>
      rw [List.map_append, ← overfull_revised]
      exact .more name comma ih

lemma SignatureReads.revised {name : Token} {names : List Token}
    (reads : SignatureReads name names tokens reports rest) :
    SignatureReads (name.revised r) (names.map (Token.revised r)) (r.front more tokens)
      (reports.map (SyntaxReport.revised r more)) (r.front more rest) := by
  cases reads with
  | bare name opening closing brace => exact .bare name opening closing brace
  | listed name opening names closing brace =>
      exact .listed name opening names.revised closing brace

lemma InitializerReads.revised (global : r.hops none = none) {first : Option Stmt}
    (reads : InitializerReads first tokens reports rest) : InitializerReads (Stmt.revised? r first)
      (r.front more tokens) (reports.map (SyntaxReport.revised r more)) (r.front more rest) := by
  cases reads with
  | omitted semicolon => exact .omitted semicolon
  | declared keyword stmt => exact .declared keyword (stmt.revised global)
  | evaluated value semicolon => exact .evaluated (value.revised global) semicolon

lemma ForReads.revised (global : r.hops none = none) {initializer : Option Stmt}
    {condition increment : Option Expr}
    (reads : ForReads initializer condition increment tokens reports rest) :
    ForReads (Stmt.revised? r initializer) (condition.map (Expr.revised r))
      (increment.map (Expr.revised r)) (r.front more tokens)
      (reports.map (SyntaxReport.revised r more)) (r.front more rest) := by
  cases reads with
  | clauses opening first condition semicolon increment closing =>
      rw [List.map_append, List.map_append]
      exact .clauses opening (first.revised global) (condition.revised global) semicolon
        (increment.revised global) closing

/-! ## Statements -/

lemma Stmt.forLoop_revised (initializer : Option Stmt) (condition increment : Option Expr)
    (body : Stmt) : (Stmt.forLoop initializer condition increment body).revised r =
      .forLoop (Stmt.revised? r initializer) (condition.map (Expr.revised r))
        (increment.map (Expr.revised r)) (body.revised r) := by
  cases initializer <;> cases condition <;> cases increment <;> rfl

namespace Passage

/-- A passage with its trees revised. -/
def revised (r : Revision) : Passage → Passage
  | declaration stmt => declaration (stmt.revised r)
  | statement isOpen stmt => statement isOpen (stmt.revised r)
  | declarations stmts => declarations (Stmt.revisedAll r stmts)

/-- **A passage reads on other lines and with other tokens behind it.** -/
theorem Reads.revised (global : r.hops none = none) {passage : Passage}
    (reads : passage.Reads tokens reports rest) : (passage.revised r).Reads (r.front more tokens)
      (reports.map (SyntaxReport.revised r more)) (r.front more rest) := by
  induction reads with
  | function keyword signature _ closing ih =>
      rw [List.map_append]
      exact .function keyword signature.revised ih closing
  | «variable» keyword stmt => exact .variable keyword (stmt.revised global)
  | plain _ ih => exact .plain ih
  | expression value semicolon => exact .expression (value.revised global) semicolon
  | print keyword value semicolon => exact .print keyword (value.revised global) semicolon
  | return_ keyword value semicolon => exact .return_ keyword (value.revised global) semicolon
  | block opening _ closing ih => exact .block opening ih closing
  | loop keyword condition _ ih =>
      rw [List.map_append]
      exact .loop keyword (condition.revised global) ih
  | forLoop keyword clauses _ ih =>
      rw [List.map_append, Passage.revised, Stmt.forLoop_revised]
      exact .forLoop keyword (clauses.revised global) ih
  | branch keyword condition _ ih =>
      rw [List.map_append]
      exact .branch keyword (condition.revised global) ih
  | branchElse keyword condition _ otherwise _ ihconsequent ihalternative =>
      rw [List.map_append, List.map_append]
      exact .branchElse keyword (condition.revised global) ihconsequent otherwise ihalternative
  | done => exact .done
  | next _ _ ihfirst ihothers =>
      rw [List.map_append]
      exact .next ihfirst ihothers

/-- **Declarations behind declarations.** -/
theorem Reads.append {stmts others : List Stmt} {tokens mid rest : List Token}
    {before after : List SyntaxReport} (first : (declarations stmts).Reads tokens before mid)
    (second : (declarations others).Reads mid after rest) :
    (declarations (stmts ++ others)).Reads tokens (before ++ after) rest := by
  induction stmts generalizing tokens before with
  | nil =>
      cases first
      exact second
  | cons stmt stmts ih =>
      cases first with
      | next stmt' stmts' =>
          rw [List.append_assoc]
          exact .next stmt' (ih stmts')

end Passage

end

/-! ## Programs -/

namespace Program

lemma beforeEnd_joined {tokens : List Token} (inner : ∀ token ∈ tokens, token.kind ≠ .endOfInput)
    (more : List Token) : beforeEnd (tokens ++ more) = tokens ++ beforeEnd more := by
  have unended : ∀ token ∈ tokens, (!token.isEnd) = true := by
    intro token mem
    rw [Bool.not_eq_true', Bool.eq_false_iff]
    exact fun isEnd => inner token mem (isEnd_iff.mp isEnd)
  rw [beforeEnd, List.takeWhile_append_of_pos unended, beforeEnd]

lemma beforeEnd_revised (r : Revision) (tokens : List Token) :
    beforeEnd (tokens.map (Token.revised r)) = (beforeEnd tokens).map (Token.revised r) := by
  rw [beforeEnd, List.takeWhile_map]
  rfl

/-- **Two programs read as one**, where the tokens of the second stand on other lines. -/
theorem parse_joined {r : Revision} (global : r.hops none = none) {tokens others : List Token}
    {mark : Token} {stmts more : List Stmt} (inner : ∀ token ∈ tokens, token.kind ≠ .endOfInput)
    (last : mark.kind = .endOfInput) (first : parse (tokens ++ [mark]) = ⟨stmts, []⟩)
    (second : parse others = ⟨more, []⟩) :
    parse (tokens ++ others.map (Token.revised r)) = ⟨stmts ++ Stmt.revisedAll r more, []⟩ := by
  rw [parse_eq_iff, beforeEnd_append inner last] at first
  rw [parse_eq_iff] at second
  rw [parse_eq_iff, beforeEnd_joined inner, beforeEnd_revised]
  have lines : Revision.same.line = id := rfl
  have front := @Passage.Reads.revised .same ((beforeEnd others).map (Token.revised r)) _ _ _ rfl _ first
  have behind := @Passage.Reads.revised r [] _ _ _ global _ second
  simp only [Passage.revised, Revision.front, Token.map_revised_eq_self lines,
    Stmt.revisedAll_eq_self lines stmts fun _ _ => rfl, List.map_nil, List.nil_append,
    List.append_nil] at front behind
  exact front.append behind

/-- A program reads the same on other lines. -/
lemma parse_revised {r : Revision} (global : r.hops none = none) {tokens : List Token}
    {stmts : List Stmt} (read : parse tokens = ⟨stmts, []⟩) :
    parse (tokens.map (Token.revised r)) = ⟨Stmt.revisedAll r stmts, []⟩ := by
  have empty : parse ([] ++ [Token.endMark 1]) = ⟨[], []⟩ :=
    parse_eq_iff.mpr (by rw [beforeEnd_append (by simp) rfl]; exact .done)
  have joined := parse_joined global (fun _ mem => absurd mem List.not_mem_nil) rfl empty read
  rwa [List.nil_append, List.nil_append] at joined

end Program

end LoxLang
