import LoxLang.Proofs.Grammar.Gives
import Mathlib

/-!
# How tokens read as expressions

The grammar of expressions as a relation between tokens and trees, apart from the parser: which
tokens may stand for which tree, without a word on how much is read when more than one reading is
open.  Tokens are given as those ahead before and after, so that a report can name what is ahead.

* `Phrase` — the parts of an expression that the grammar has a rule for, each with its tree.
* **`Phrase.Reads`** — the readings.  A target that cannot be assigned and a list that is too long
  are readings too, with a report.
* `Phrase.Reads.opens` — a phrase takes at least one token, and which ones it can start with.
* **`Phrase.Reads.name_of_variable`** — only a single name reads as a variable.
-/

namespace LoxLang

/-- A part of an expression and the tree it stands for. -/
inductive Phrase where
  | assignment (value : Expr)
  /-- Operands of these rows of operators. -/
  | operation (levels : List Level) (value : Expr)
  /-- What makes a whole value of the operand `left`. -/
  | chain (level : Level) (tighter : List Level) (left value : Expr)
  | unary (value : Expr)
  /-- What makes a whole value of a callee. -/
  | calls (callee value : Expr)
  /-- Arguments behind `count` others. -/
  | arguments (count : Nat) (values : List Expr)
  | primary (value : Expr)

namespace Phrase

/-- Tokens that read as a phrase up to `rest`, with reports. -/
inductive Reads : Phrase → List Token → List SyntaxReport → List Token → Prop where
  | plain {value tokens reports rest} :
      (operation Level.all value).Reads tokens reports rest →
      (assignment value).Reads tokens reports rest
  | assign {name hops value equals tokens mid rest before after} :
      (operation Level.all (.variable name hops)).Reads tokens before (equals :: mid) →
      equals.kind = .equal →
      (assignment value).Reads mid after rest →
      (assignment (.assign name value none)).Reads tokens (before ++ after) rest
  | mistaken {target value equals tokens mid rest before after} :
      (operation Level.all target).Reads tokens before (equals :: mid) →
      equals.kind = .equal →
      (∀ name hops, target ≠ .variable name hops) →
      (assignment value).Reads mid after rest →
      (assignment target).Reads tokens (before ++ (after ++ [⟨.invalidTarget, equals :: mid⟩])) rest
  | operand {value tokens reports rest} :
      (unary value).Reads tokens reports rest →
      (operation [] value).Reads tokens reports rest
  | row {level tighter left value tokens mid rest before after} :
      (operation tighter left).Reads tokens before mid →
      (chain level tighter left value).Reads mid after rest →
      (operation (level :: tighter) value).Reads tokens (before ++ after) rest
  | alone {level tighter value rest} : (chain level tighter value value).Reads rest [] rest
  | link {level tighter left operator right value tokens mid rest before after} :
      operator.kind ∈ level.operators →
      (operation tighter right).Reads tokens before mid →
      (chain level tighter (level.node left operator right) value).Reads mid after rest →
      (chain level tighter left value).Reads (operator :: tokens) (before ++ after) rest
  | sign {operator operand tokens reports rest} :
      operator.kind ∈ [Kind.bang, .minus] →
      (unary operand).Reads tokens reports rest →
      (unary (.unary operator operand)).Reads (operator :: tokens) reports rest
  | callee {callee value tokens mid rest before after} :
      (primary callee).Reads tokens before mid →
      (calls callee value).Reads mid after rest →
      (unary value).Reads tokens (before ++ after) rest
  | uncalled {value rest} : (calls value value).Reads rest [] rest
  | calledBare {callee opening paren value tokens reports rest} :
      opening.kind = .leftParen → paren.kind = .rightParen →
      (calls (.call callee paren []) value).Reads tokens reports rest →
      (calls callee value).Reads (opening :: paren :: tokens) reports rest
  | called {callee opening paren values value tokens mid rest before after} :
      opening.kind = .leftParen →
      (arguments 0 values).Reads tokens before (paren :: mid) →
      paren.kind = .rightParen →
      (calls (.call callee paren values) value).Reads mid after rest →
      (calls callee value).Reads (opening :: tokens) (before ++ after) rest
  | last {count value tokens reports rest} :
      (assignment value).Reads tokens reports rest →
      (arguments count [value]).Reads tokens
        (overfull .tooManyArguments count tokens ++ reports) rest
  | more {count value values comma tokens mid rest before after} :
      (assignment value).Reads tokens before (comma :: mid) →
      comma.kind = .comma →
      (arguments (count + 1) values).Reads mid after rest →
      (arguments count (value :: values)).Reads tokens
        (overfull .tooManyArguments count tokens ++ (before ++ after)) rest
  | literal {token value rest} :
      Constant.ofToken? token = some value →
      (primary (.literal value)).Reads (token :: rest) [] rest
  | name {token rest} :
      token.kind = .identifier →
      (primary (.variable token none)).Reads (token :: rest) [] rest
  | group {opening closing inner tokens reports rest} :
      opening.kind = .leftParen →
      (assignment inner).Reads tokens reports (closing :: rest) →
      closing.kind = .rightParen →
      (primary (.group inner)).Reads (opening :: tokens) reports rest

/-- The rows of operators are those of the language. -/
def Proper : Phrase → Prop
  | operation levels _ => levels <:+ Level.all
  | chain level tighter _ _ => level :: tighter <:+ Level.all
  | _ => True

/-! ## The first token -/

/-- The kinds that a literal token has. -/
def literalKinds : List Kind :=
  [.number, .string, .keyword .true_, .keyword .false_, .keyword .nil]

/-- The kinds that a primary expression can start with. -/
def primaryKinds : List Kind := .identifier :: .leftParen :: literalKinds

/-- The kinds that an expression can start with. -/
def openingKinds : List Kind := .bang :: .minus :: primaryKinds

lemma kind_of_constant {token : Token} {value : Constant}
    (found : Constant.ofToken? token = some value) : token.kind ∈ literalKinds := by
  rcases token with ⟨kind, lexeme, literal, line⟩
  cases kind with
  | keyword word => cases word <;> simp_all [Constant.ofToken?, literalKinds]
  | _ => simp_all [Constant.ofToken?, literalKinds]

lemma constant_isSome {token : Token} (listed : token.kind ∈ literalKinds) :
    (Constant.ofToken? token).isSome := by
  rcases token with ⟨kind, lexeme, literal, line⟩
  simp only [literalKinds, List.mem_cons, List.not_mem_nil, or_false] at listed
  rcases listed with rfl | rfl | rfl | rfl | rfl <;> rcases literal with _ | (_ | _) <;> rfl

/-- What an expression starts with announces no other statement. -/
lemma ofToken?_eq_none {token : Token} (listed : token.kind ∈ openingKinds) :
    Parser.Opening.ofToken? token = none := by
  rcases token with ⟨kind, lexeme, literal, line⟩
  simp only [openingKinds, primaryKinds, literalKinds, List.mem_cons, List.not_mem_nil,
    or_false] at listed
  rcases listed with rfl | rfl | rfl | rfl | rfl | rfl | rfl | rfl | rfl <;> rfl

/-- What a phrase starts with, and that it takes tokens unless it may be left out. -/
def Opens (tokens rest : List Token) : Phrase → Prop
  | chain level _ _ _ =>
    tokens = rest ∨ ∃ token mid, tokens = token :: mid ∧ rest <:+ mid ∧ token.kind ∈ level.operators
  | calls _ _ =>
    tokens = rest ∨ ∃ token mid, tokens = token :: mid ∧ rest <:+ mid ∧ token.kind = .leftParen
  | primary _ => ∃ token mid, tokens = token :: mid ∧ rest <:+ mid ∧ token.kind ∈ primaryKinds
  | _ => ∃ token mid, tokens = token :: mid ∧ rest <:+ mid ∧ token.kind ∈ openingKinds

variable {phrase : Phrase} {tokens rest : List Token} {reports : List SyntaxReport}

lemma Opens.suffix (opens : phrase.Opens tokens rest) : rest <:+ tokens := by
  cases phrase with
  | chain level tighter left value =>
      rcases opens with rfl | ⟨token, mid, rfl, suffix, _⟩
      · exact List.suffix_rfl
      · exact suffix.trans (List.suffix_cons token mid)
  | calls callee value =>
      rcases opens with rfl | ⟨token, mid, rfl, suffix, _⟩
      · exact List.suffix_rfl
      · exact suffix.trans (List.suffix_cons token mid)
  | _ =>
      obtain ⟨token, mid, rfl, suffix, _⟩ := opens
      exact suffix.trans (List.suffix_cons token mid)

lemma Reads.opens (reads : phrase.Reads tokens reports rest) : phrase.Opens tokens rest := by
  induction reads with
  | plain _ ih => exact ih
  | assign _ _ _ ihtarget ihvalue =>
      obtain ⟨token, mid, rfl, suffix, kind⟩ := ihtarget
      exact ⟨token, mid, rfl, (ihvalue.suffix.trans (List.suffix_cons _ _)).trans suffix, kind⟩
  | mistaken _ _ _ _ ihtarget ihvalue =>
      obtain ⟨token, mid, rfl, suffix, kind⟩ := ihtarget
      exact ⟨token, mid, rfl, (ihvalue.suffix.trans (List.suffix_cons _ _)).trans suffix, kind⟩
  | operand _ ih => exact ih
  | row _ _ ihleft ihchain =>
      obtain ⟨token, mid, rfl, suffix, kind⟩ := ihleft
      exact ⟨token, mid, rfl, ihchain.suffix.trans suffix, kind⟩
  | alone => exact Or.inl rfl
  | link kind _ _ ihright ihchain =>
      exact Or.inr ⟨_, _, rfl, ihchain.suffix.trans ihright.suffix, kind⟩
  | sign kind _ ih =>
      refine ⟨_, _, rfl, ih.suffix, ?_⟩
      simp only [List.mem_cons, List.not_mem_nil, or_false] at kind
      rcases kind with kind | kind <;> simp [kind, openingKinds]
  | callee _ _ ihcallee ihcalls =>
      obtain ⟨token, mid, rfl, suffix, kind⟩ := ihcallee
      exact ⟨token, mid, rfl, ihcalls.suffix.trans suffix,
        List.mem_cons_of_mem _ (List.mem_cons_of_mem _ kind)⟩
  | uncalled => exact Or.inl rfl
  | calledBare opening _ _ ih =>
      exact Or.inr ⟨_, _, rfl, ih.suffix.trans (List.suffix_cons _ _), opening⟩
  | called opening _ _ _ iharguments ihcalls =>
      exact Or.inr ⟨_, _, rfl,
        (ihcalls.suffix.trans (List.suffix_cons _ _)).trans iharguments.suffix, opening⟩
  | last _ ih => exact ih
  | more _ _ _ ihvalue ihvalues =>
      obtain ⟨token, mid, rfl, suffix, kind⟩ := ihvalue
      exact ⟨token, mid, rfl, (ihvalues.suffix.trans (List.suffix_cons _ _)).trans suffix, kind⟩
  | literal value =>
      refine ⟨_, _, rfl, List.suffix_rfl, ?_⟩
      exact List.mem_cons_of_mem _ (List.mem_cons_of_mem _ (kind_of_constant value))
  | name kind => exact ⟨_, _, rfl, List.suffix_rfl, by simp [kind, primaryKinds]⟩
  | group opening _ _ ih =>
      exact ⟨_, _, rfl, (List.suffix_cons _ _).trans ih.suffix, by simp [opening, primaryKinds]⟩

/-! ## Variables -/

lemma node_ne_variable {level : Level} (listed : level ∈ Level.all) {left right : Expr}
    {operator name : Token} {hops : Option Nat} :
    level.node left operator right ≠ .variable name hops := by
  simp only [Level.all, List.mem_cons, List.not_mem_nil, or_false] at listed
  rcases listed with rfl | rfl | rfl | rfl | rfl | rfl <;> simp

/-- What a phrase is whose value is a variable: a single name, or nothing behind one. -/
def Names (tokens : List Token) (reports : List SyntaxReport) (rest : List Token) : Phrase → Prop
  | operation levels value => levels ⊆ Level.all → ∀ name hops, value = .variable name hops →
      hops = none ∧ reports = [] ∧ tokens = name :: rest ∧ name.kind = .identifier
  | chain level _ left value => level ∈ Level.all → ∀ name hops, value = .variable name hops →
      left = value ∧ reports = [] ∧ tokens = rest
  | unary value => ∀ name hops, value = .variable name hops →
      hops = none ∧ reports = [] ∧ tokens = name :: rest ∧ name.kind = .identifier
  | calls callee value => ∀ name hops, value = .variable name hops →
      callee = value ∧ reports = [] ∧ tokens = rest
  | primary value => ∀ name hops, value = .variable name hops →
      hops = none ∧ reports = [] ∧ tokens = name :: rest ∧ name.kind = .identifier
  | _ => True

lemma Reads.names (reads : phrase.Reads tokens reports rest) : phrase.Names tokens reports rest := by
  induction reads with
  | plain | assign | mistaken | last | more => trivial
  | operand _ ih => exact fun _ => ih
  | row _ _ ihleft ihchain =>
      intro levels name hops value
      obtain ⟨rfl, rfl, rfl⟩ := ihchain (levels (by simp)) name hops value
      have left := ihleft (fun level listed => levels (by simp [listed])) name hops value
      simpa using left
  | alone => exact fun _ _ _ _ => ⟨rfl, rfl, rfl⟩
  | link _ _ _ _ ihchain =>
      intro listed name hops value
      have node := (ihchain listed name hops value).1
      exact absurd (node.trans value) (node_ne_variable listed)
  | sign => exact fun _ _ value => by cases value
  | callee _ _ ihcallee ihcalls =>
      intro name hops value
      obtain ⟨rfl, rfl, rfl⟩ := ihcalls name hops value
      simpa using ihcallee name hops value
  | uncalled => exact fun _ _ _ => ⟨rfl, rfl, rfl⟩
  | calledBare _ _ _ ih =>
      intro name hops value
      have call := (ih name hops value).1
      exact absurd (call.trans value) (by simp)
  | called _ _ _ _ _ ihcalls =>
      intro name hops value
      have call := (ihcalls name hops value).1
      exact absurd (call.trans value) (by simp)
  | literal => exact fun _ _ value => by cases value
  | name kind =>
      intro name hops value
      cases value
      exact ⟨rfl, rfl, rfl, kind⟩
  | group => exact fun _ _ value => by cases value

/-- **Only a name reads as a variable.** -/
theorem Reads.name_of_variable {name : Token} {hops : Option Nat}
    (reads : (operation Level.all (.variable name hops)).Reads tokens reports rest) :
    hops = none ∧ reports = [] ∧ tokens = name :: rest ∧ name.kind = .identifier :=
  reads.names (List.Subset.refl _) name hops rfl

/-- A name reads as a variable on every row. -/
lemma Reads.of_name {name : Token} (nameKind : name.kind = .identifier) (levels : List Level) :
    (operation levels (.variable name none)).Reads (name :: rest) [] rest := by
  induction levels with
  | nil => exact .operand (.callee (.name nameKind) .uncalled)
  | cons level tighter ih => exact .row ih .alone

end Phrase

end LoxLang
