import LoxLang.Grammar.Expression
import Mathlib

/-!
# The grammar as rules

The grammar of the language as a table of rules, and what it means for tokens to be derivable from
one.  Nothing here knows how tokens are read: an operator row is an operand and any number of further
ones, and an `else` may stand behind any statement in an `if`.

* `Rule`, `Form` — the names of the rules, and what stands on the right of one.
* `grammar` — the rules of the language, with the limit on parameters and arguments.
* `Derives` — tokens that a form derives.
* `Repeats` — a relation that is taken a limited number of times.
* `Form.Inner`, `Derives.inner` — no end mark stands in what a form derives, unless it asks for one.
* **`Derives.of_kinds`** — only the kinds of tokens count.
* `Derivable` — the tokens in front of others derive from a form; one lemma for each way to put forms
  together.
-/

namespace LoxLang

/-- The names of the rules. -/
inductive Rule where
  | program
  | declaration
  | funDecl
  | varDecl
  | statement
  | exprStmt
  | printStmt
  | block
  | ifStmt
  | whileStmt
  | forStmt
  | returnStmt
  | parameters
  | arguments
  | expression
  | assignment
  | logicOr
  | logicAnd
  | equality
  | comparison
  | term
  | factor
  | unary
  | call
  | primary

/-- What stands on the right of a rule. -/
inductive Form where
  | token (kind : Kind)
  | rule (name : Rule)
  /-- No tokens at all derive from it. -/
  | never
  /-- Only the empty list derives from it. -/
  | nothing
  | both (first second : Form)
  | either (left right : Form)
  | many (form : Form)
  | upTo (most : Nat) (form : Form)

namespace Form

/-- Forms one after another. -/
def inOrder : List Form → Form
  | [] => nothing
  | form :: forms => both form (inOrder forms)

/-- One of several forms. -/
def oneOf : List Form → Form
  | [] => never
  | form :: forms => either form (oneOf forms)

/-- A form that may be left out. -/
def optional (form : Form) : Form := either nothing form

/-- At least one, and at most as many as there may be parameters, with commas between them. -/
def listed (form : Form) : Form :=
  inOrder [form, upTo (maxArguments - 1) (inOrder [token .comma, form])]

/-- Operands with operators between them. -/
def row (operators : List Kind) (operand : Rule) : Form :=
  inOrder [rule operand, many (inOrder [oneOf (operators.map token), rule operand])]

end Form

open Form in
/-- The rules of the language. -/
def grammar : Rule → Form
  | .program => inOrder [many (rule .declaration), token .endOfInput]
  | .declaration => oneOf [rule .funDecl, rule .varDecl, rule .statement]
  | .funDecl =>
    inOrder [token (.keyword .fun_), token .identifier, token .leftParen,
      optional (rule .parameters), token .rightParen, rule .block]
  | .varDecl =>
    inOrder [token (.keyword .var), token .identifier,
      optional (inOrder [token .equal, rule .expression]), token .semicolon]
  | .statement =>
    oneOf [rule .exprStmt, rule .printStmt, rule .block, rule .ifStmt, rule .whileStmt,
      rule .forStmt, rule .returnStmt]
  | .exprStmt => inOrder [rule .expression, token .semicolon]
  | .printStmt => inOrder [token (.keyword .print), rule .expression, token .semicolon]
  | .block => inOrder [token .leftBrace, many (rule .declaration), token .rightBrace]
  | .ifStmt =>
    inOrder [token (.keyword .if_), token .leftParen, rule .expression, token .rightParen,
      rule .statement, optional (inOrder [token (.keyword .else_), rule .statement])]
  | .whileStmt =>
    inOrder [token (.keyword .while_), token .leftParen, rule .expression, token .rightParen,
      rule .statement]
  | .forStmt =>
    inOrder [token (.keyword .for_), token .leftParen,
      oneOf [rule .varDecl, rule .exprStmt, token .semicolon],
      optional (rule .expression), token .semicolon,
      optional (rule .expression), token .rightParen, rule .statement]
  | .returnStmt =>
    inOrder [token (.keyword .return_), optional (rule .expression), token .semicolon]
  | .parameters => listed (token .identifier)
  | .arguments => listed (rule .expression)
  | .expression => rule .assignment
  | .assignment =>
    oneOf [inOrder [token .identifier, token .equal, rule .assignment], rule .logicOr]
  | .logicOr => row [.keyword .or] .logicAnd
  | .logicAnd => row [.keyword .and] .equality
  | .equality => row [.bangEqual, .equalEqual] .comparison
  | .comparison => row [.greater, .greaterEqual, .less, .lessEqual] .term
  | .term => row [.minus, .plus] .factor
  | .factor => row [.slash, .star] .unary
  | .unary => oneOf [inOrder [oneOf [token .bang, token .minus], rule .unary], rule .call]
  | .call =>
    inOrder [rule .primary,
      many (inOrder [token .leftParen, optional (rule .arguments), token .rightParen])]
  | .primary =>
    oneOf [token .number, token .string, token (.keyword .true_), token (.keyword .false_),
      token (.keyword .nil), token .identifier,
      inOrder [token .leftParen, rule .expression, token .rightParen]]

/-- Tokens that derive from a form, by the rules of a table. -/
inductive Derives (table : Rule → Form) : Form → List Token → Prop where
  | token {kind token} : token.kind = kind → Derives table (.token kind) [token]
  | rule {name tokens} : Derives table (table name) tokens → Derives table (.rule name) tokens
  | nothing : Derives table .nothing []
  | both {first second front back} :
      Derives table first front → Derives table second back →
      Derives table (.both first second) (front ++ back)
  | left {left right tokens} : Derives table left tokens → Derives table (.either left right) tokens
  | right {left right tokens} :
      Derives table right tokens → Derives table (.either left right) tokens
  | many {form} {parts : List (List Token)} :
      (∀ part ∈ parts, Derives table form part) → Derives table (.many form) parts.flatten
  | upTo {most form} {parts : List (List Token)} :
      parts.length ≤ most → (∀ part ∈ parts, Derives table form part) →
      Derives table (.upTo most form) parts.flatten

/-! ## Repeated relations -/

/-- At most so many steps of a relation. -/
inductive Repeats {α : Type} (r : α → α → Prop) : Nat → α → α → Prop where
  | none {most a} : Repeats r most a a
  | more {most a b c} : r a b → Repeats r most b c → Repeats r (most + 1) a c

lemma Repeats.reflTransGen {α : Type} {r : α → α → Prop} {most : Nat} {a b : α}
    (steps : Repeats r most a b) : Relation.ReflTransGen r a b := by
  induction steps with
  | none => exact .refl
  | more step _ ih => exact .head step ih

section Flatten

variable {α : Type} {r : List α → List α → Prop}

lemma reflTransGen_flatten {parts : List (List α)} :
    (∀ part ∈ parts, ∀ rest, r (part ++ rest) rest) →
      ∀ rest, Relation.ReflTransGen r (parts.flatten ++ rest) rest := by
  induction parts with
  | nil => exact fun _ _ => .refl
  | cons part parts ih =>
      intro h rest
      obtain ⟨listed, partsDerive⟩ := List.forall_mem_cons.mp h
      rw [List.flatten_cons, List.append_assoc]
      exact .head (listed _) (ih partsDerive rest)

lemma repeats_flatten {parts : List (List α)} : ∀ {most : Nat}, parts.length ≤ most →
    (∀ part ∈ parts, ∀ rest, r (part ++ rest) rest) →
      ∀ rest, Repeats r most (parts.flatten ++ rest) rest := by
  induction parts with
  | nil => exact fun _ _ _ => .none
  | cons part parts ih =>
      intro most length h rest
      obtain ⟨listed, partsDerive⟩ := List.forall_mem_cons.mp h
      cases most with
      | zero => simp at length
      | succ most =>
          rw [List.flatten_cons, List.append_assoc]
          exact .more (listed _) (ih (by simpa using length) partsDerive rest)

end Flatten

/-! ## The end mark -/

/-- A form that asks for no end mark, and so derives none. -/
def Form.Inner : Form → Prop
  | token kind => kind ≠ .endOfInput
  | rule .program => False
  | rule _ => True
  | never => True
  | nothing => True
  | both first second => first.Inner ∧ second.Inner
  | either left right => left.Inner ∧ right.Inner
  | many form => form.Inner
  | upTo _ form => form.Inner

/-- Every rule but that of a whole program. -/
lemma grammar_inner {name : Rule} (holds : (Form.rule name).Inner) : (grammar name).Inner := by
  cases name with
  | program => exact holds.elim
  | _ => simp [grammar, Form.inOrder, Form.oneOf, Form.optional, Form.listed, Form.row, Form.Inner]

lemma Derives.inner {table : Rule → Form}
    (inner : ∀ name, (Form.rule name).Inner → (table name).Inner) {form : Form}
    {tokens : List Token} (derives : Derives table form tokens) :
    form.Inner → ∀ token ∈ tokens, token.kind ≠ .endOfInput := by
  induction derives with
  | token kind =>
      intro innerDerives token same
      rw [List.mem_singleton.mp same, kind]
      exact innerDerives
  | rule _ ih => exact fun innerDerives => ih (inner _ innerDerives)
  | nothing => simp
  | both _ _ ihfirst ihsecond =>
      exact fun innerDerives =>
        List.forall_mem_append.mpr ⟨ihfirst innerDerives.1, ihsecond innerDerives.2⟩
  | left _ ih => exact fun innerDerives => ih innerDerives.1
  | right _ ih => exact fun innerDerives => ih innerDerives.2
  | many _ ih =>
      intro innerDerives token same
      obtain ⟨part, listed, same⟩ := List.mem_flatten.mp same
      exact ih part listed innerDerives token same
  | upTo _ _ ih =>
      intro innerDerives token same
      obtain ⟨part, listed, same⟩ := List.mem_flatten.mp same
      exact ih part listed innerDerives token same

/-! ## Only kinds count -/

/-- A list that looks like one put together of parts is put together of pieces that look like them. -/
lemma exists_pieces {α β : Type} {f : α → β} : ∀ {parts : List (List α)} {others : List α},
    others.map f = parts.flatten.map f → ∃ pieces : List (List α), others = pieces.flatten
      ∧ pieces.length = parts.length ∧ ∀ piece ∈ pieces, ∃ part ∈ parts, piece.map f = part.map f
  | [], others, same => ⟨[], by simpa using same, rfl, by simp⟩
  | part :: parts, others, same => by
      rw [List.flatten_cons, List.map_append] at same
      obtain ⟨piece, behind, rfl, alike, same⟩ := List.map_eq_append_iff.mp same
      obtain ⟨pieces, rfl, length, found⟩ := exists_pieces same
      refine ⟨piece :: pieces, rfl, by simp [length], List.forall_mem_cons.mpr ⟨?_, ?_⟩⟩
      · exact ⟨part, List.mem_cons_self, alike⟩
      · intro other listed
        obtain ⟨given, mem, alike⟩ := found other listed
        exact ⟨given, List.mem_cons_of_mem _ mem, alike⟩

/-- **Whether tokens derive from a form depends on their kinds only.** -/
theorem Derives.of_kinds {table : Rule → Form} {form : Form} {tokens others : List Token}
    (derived : Derives table form tokens) (same : others.map Token.kind = tokens.map Token.kind) :
    Derives table form others := by
  induction derived generalizing others with
  | token kind =>
      obtain ⟨other, rfl, alike⟩ := List.map_eq_singleton_iff.mp same
      exact .token (alike.trans kind)
  | rule _ ih => exact .rule (ih same)
  | nothing =>
      obtain rfl := List.map_eq_nil_iff.mp same
      exact .nothing
  | both _ _ ihfirst ihsecond =>
      rw [List.map_append] at same
      obtain ⟨front, back, rfl, alike, behind⟩ := List.map_eq_append_iff.mp same
      exact .both (ihfirst alike) (ihsecond behind)
  | left _ ih => exact .left (ih same)
  | right _ ih => exact .right (ih same)
  | many _ ih =>
      obtain ⟨pieces, rfl, -, found⟩ := exists_pieces same
      refine .many fun piece listed => ?_
      obtain ⟨part, mem, alike⟩ := found piece listed
      exact ih part mem alike
  | upTo bound _ ih =>
      obtain ⟨pieces, rfl, length, found⟩ := exists_pieces same
      refine .upTo (length ▸ bound) fun piece listed => ?_
      obtain ⟨part, mem, alike⟩ := found piece listed
      exact ih part mem alike

/-! ## What derives in front of other tokens -/

/-- The tokens in front of `rest` derive from a form. -/
def Derivable (table : Rule → Form) (form : Form) (tokens rest : List Token) : Prop :=
  ∃ read, tokens = read ++ rest ∧ Derives table form read

namespace Derivable

variable {table : Rule → Form} {form : Form} {forms : List Form} {tokens mid rest : List Token}

lemma token {kind : Kind} {first : Token} (same : first.kind = kind) :
    Derivable table (.token kind) (first :: rest) rest :=
  ⟨[first], rfl, .token same⟩

lemma rule {name : Rule} (derives : Derivable table (table name) tokens rest) :
    Derivable table (.rule name) tokens rest := by
  obtain ⟨read, rfl, reads⟩ := derives
  exact ⟨read, rfl, .rule reads⟩

lemma ended : Derivable table (.inOrder []) rest rest := ⟨[], rfl, .nothing⟩

lemma followed (derives : Derivable table form tokens mid)
    (formsDerive : Derivable table (.inOrder forms) mid rest) :
    Derivable table (.inOrder (form :: forms)) tokens rest := by
  obtain ⟨back, rfl, backDerives⟩ := formsDerive
  obtain ⟨front, rfl, frontDerives⟩ := derives
  exact ⟨front ++ back, by simp, .both frontDerives backDerives⟩

/-- A sequence in front of other tokens is its first form in front of the rest of it. -/
lemma split (derives : Derivable table (.inOrder (form :: forms)) tokens rest) :
    ∃ mid, Derivable table form tokens mid ∧ Derivable table (.inOrder forms) mid rest := by
  obtain ⟨read, rfl, reads⟩ := derives
  cases reads with
  | @both _ _ front back frontDerives backDerives =>
      exact ⟨back ++ rest, ⟨front, by simp, frontDerives⟩, back, rfl, backDerives⟩

lemma oneOf (mem : form ∈ forms) (derives : Derivable table form tokens rest) :
    Derivable table (.oneOf forms) tokens rest := by
  obtain ⟨read, rfl, reads⟩ := derives
  refine ⟨read, rfl, ?_⟩
  induction forms with
  | nil => cases mem
  | cons other forms ih =>
      rcases List.mem_cons.mp mem with rfl | mem
      · exact .left reads
      · exact .right (ih mem)

lemma oneOf_token (kinds : List Kind) {first : Token} (listed : first.kind ∈ kinds) :
    Derivable table (.oneOf (kinds.map .token)) (first :: rest) rest :=
  oneOf (List.mem_map_of_mem listed) (token rfl)

lemma omitted : Derivable table form.optional rest rest := ⟨[], rfl, .left .nothing⟩

lemma given (derives : Derivable table form tokens rest) :
    Derivable table form.optional tokens rest := by
  obtain ⟨read, rfl, reads⟩ := derives
  exact ⟨read, rfl, .right reads⟩

lemma many_none : Derivable table (.many form) rest rest := by
  have none_ : ∀ part ∈ [], Derives table form part := by simp
  exact ⟨[], rfl, .many none_⟩

lemma many_more (derives : Derivable table form tokens mid)
    (formsDerive : Derivable table (.many form) mid rest) :
    Derivable table (.many form) tokens rest := by
  obtain ⟨_, rfl, back⟩ := formsDerive
  obtain ⟨front, rfl, frontDerives⟩ := derives
  cases back with
  | @many _ parts partsDerive =>
      have all : ∀ part ∈ front :: parts, Derives table form part :=
        List.forall_mem_cons.mpr ⟨frontDerives, partsDerive⟩
      exact ⟨front ++ parts.flatten, by simp, .many all⟩

lemma upTo_none {most : Nat} : Derivable table (.upTo most form) rest rest := by
  have none_ : ∀ part ∈ [], Derives table form part := by simp
  exact ⟨[], rfl, .upTo (Nat.zero_le most) none_⟩

lemma upTo_more {most : Nat} (derives : Derivable table form tokens mid)
    (formsDerive : Derivable table (.upTo most form) mid rest) :
    Derivable table (.upTo (most + 1) form) tokens rest := by
  obtain ⟨_, rfl, back⟩ := formsDerive
  obtain ⟨front, rfl, frontDerives⟩ := derives
  cases back with
  | @upTo _ _ parts length partsDerive =>
      have few : (front :: parts).length ≤ most + 1 := by simpa using length
      have all : ∀ part ∈ front :: parts, Derives table form part :=
        List.forall_mem_cons.mpr ⟨frontDerives, partsDerive⟩
      exact ⟨front ++ parts.flatten, by simp, .upTo few all⟩

lemma derives (given : Derivable table form tokens []) : Derives table form tokens := by
  obtain ⟨read, rfl, reads⟩ := given
  rw [List.append_nil]
  exact reads

end Derivable

end LoxLang
