import LoxLang.Proofs.Grammar.Rules
import Mathlib

/-!
# Derivations as trees

A derivation is the tree of the rules that were applied, with the tokens as its leaves.  A tree is
built from a table of rules when the parts of each rule in it are what the table says; the tokens that
derive from a form are the leaves of what is built from it.

* `ParseTree` — a token, or a rule with its parts.
* `ParseTree.tokens` — the leaves, from left to right.
* `Builds` — the parts of a form, each rule among them built from its own parts.
* **`Builds.derives`**, **`Derives.builds`** — the leaves of the parts of a form derive from it, and no
  other tokens do.
* `Form.Shape` — a form as a relation of parts and the parts behind them, given what is known of the
  parts of a rule.
* **`Builds.shape`** — what holds of each rule by its shape holds of what is built.
-/

namespace LoxLang

/-- A token, or a rule with the parts that it is made of. -/
inductive ParseTree where
  | leaf (token : Token)
  | node (name : Rule) (parts : List ParseTree)

namespace ParseTree

mutual

/-- The tokens of a derivation. -/
def tokens : ParseTree → List Token
  | leaf token => [token]
  | node _ parts => tokensAll parts

/-- The tokens of derivations one behind the other. -/
def tokensAll : List ParseTree → List Token
  | [] => []
  | part :: parts => part.tokens ++ tokensAll parts

end

@[simp] lemma tokens_leaf (token : Token) : (leaf token).tokens = [token] := rfl

@[simp] lemma tokens_node (name : Rule) (parts : List ParseTree) :
    (node name parts).tokens = tokensAll parts := rfl

@[simp] lemma tokensAll_nil : tokensAll [] = [] := rfl

@[simp] lemma tokensAll_cons (part : ParseTree) (parts : List ParseTree) :
    tokensAll (part :: parts) = part.tokens ++ tokensAll parts := rfl

@[simp] lemma tokensAll_append (front back : List ParseTree) :
    tokensAll (front ++ back) = tokensAll front ++ tokensAll back := by
  induction front with
  | nil => rfl
  | cons part front ih =>
      rw [List.cons_append, tokensAll_cons, tokensAll_cons, ih, List.append_assoc]

lemma tokensAll_flatten (groups : List (List ParseTree)) :
    tokensAll groups.flatten = (groups.map tokensAll).flatten := by
  induction groups with
  | nil => rfl
  | cons group groups ih =>
      rw [List.flatten_cons, tokensAll_append, ih, List.map_cons, List.flatten_cons]

end ParseTree

open ParseTree

/-- The parts are what the form says, and those of each rule in them are what the table says. -/
inductive Builds (table : Rule → Form) : Form → List ParseTree → Prop where
  | token {kind token} : token.kind = kind → Builds table (.token kind) [.leaf token]
  | rule {name parts} : Builds table (table name) parts → Builds table (.rule name) [.node name parts]
  | nothing : Builds table .nothing []
  | both {first second front back} :
      Builds table first front → Builds table second back →
      Builds table (.both first second) (front ++ back)
  | left {left right parts} : Builds table left parts → Builds table (.either left right) parts
  | right {left right parts} : Builds table right parts → Builds table (.either left right) parts
  | many {form} {groups : List (List ParseTree)} :
      (∀ group ∈ groups, Builds table form group) → Builds table (.many form) groups.flatten
  | upTo {most form} {groups : List (List ParseTree)} :
      groups.length ≤ most → (∀ group ∈ groups, Builds table form group) →
      Builds table (.upTo most form) groups.flatten

variable {table : Rule → Form} {form : Form}

namespace Builds

variable {forms : List Form} {part : ParseTree} {parts : List ParseTree}

lemma ended : Builds table (.inOrder []) [] := .nothing

lemma followed (first : Builds table form [part]) (others : Builds table (.inOrder forms) parts) :
    Builds table (.inOrder (form :: forms)) (part :: parts) := both first others

lemma alone (built : Builds table form parts) : Builds table (.inOrder [form]) parts := by
  rw [← List.append_nil parts]
  exact both built nothing

lemma many_none : Builds table (.many form) [] := by
  have none : ∀ group ∈ [], Builds table form group := by simp
  exact many none

lemma many_one (built : Builds table form parts) : Builds table (.many form) parts := by
  have one : ∀ group ∈ [parts], Builds table form group := List.forall_mem_singleton.mpr built
  simpa using many one

end Builds

/-! ## Leaves -/

/-- **The leaves of what is built derive.** -/
theorem Builds.derives {parts : List ParseTree} (built : Builds table form parts) :
    Derives table form (tokensAll parts) := by
  induction built with
  | token kind => exact .token kind
  | rule _ ih =>
      rw [tokensAll_cons, tokens_node, tokensAll_nil, List.append_nil]
      exact .rule ih
  | nothing => exact .nothing
  | both _ _ ihfirst ihsecond =>
      rw [tokensAll_append]
      exact .both ihfirst ihsecond
  | left _ ih => exact .left ih
  | right _ ih => exact .right ih
  | many _ ih =>
      rw [tokensAll_flatten]
      refine .many ?_
      rintro _ part
      obtain ⟨group, listed, rfl⟩ := List.mem_map.mp part
      exact ih group listed
  | upTo few _ ih =>
      rw [tokensAll_flatten]
      refine .upTo (by rwa [List.length_map]) ?_
      rintro _ part
      obtain ⟨group, listed, rfl⟩ := List.mem_map.mp part
      exact ih group listed

/-- Where each of several token lists has its parts, all of them have theirs, group by group. -/
lemma exists_groups {pieces : List (List Token)}
    (each : ∀ piece ∈ pieces, ∃ parts, Builds table form parts ∧ tokensAll parts = piece) :
    ∃ groups : List (List ParseTree), (∀ group ∈ groups, Builds table form group)
      ∧ groups.map tokensAll = pieces := by
  induction pieces with
  | nil => exact ⟨[], by simp, rfl⟩
  | cons piece pieces ih =>
      obtain ⟨⟨parts, built, rfl⟩, others⟩ := List.forall_mem_cons.mp each
      obtain ⟨groups, allBuilt, rfl⟩ := ih others
      exact ⟨parts :: groups, List.forall_mem_cons.mpr ⟨built, allBuilt⟩, rfl⟩

/-- **What derives is the leaves of something that is built.** -/
theorem Derives.builds {tokens : List Token} (derived : Derives table form tokens) :
    ∃ parts, Builds table form parts ∧ tokensAll parts = tokens := by
  induction derived with
  | @token _ token kind => exact ⟨[.leaf token], .token kind, rfl⟩
  | @rule name _ _ ih =>
      obtain ⟨parts, built, rfl⟩ := ih
      exact ⟨[.node name parts], .rule built, by simp⟩
  | nothing => exact ⟨[], .nothing, rfl⟩
  | both _ _ ihfirst ihsecond =>
      obtain ⟨front, builtFront, rfl⟩ := ihfirst
      obtain ⟨back, builtBack, rfl⟩ := ihsecond
      exact ⟨front ++ back, .both builtFront builtBack, tokensAll_append front back⟩
  | left _ ih =>
      obtain ⟨parts, built, rfl⟩ := ih
      exact ⟨parts, .left built, rfl⟩
  | right _ ih =>
      obtain ⟨parts, built, rfl⟩ := ih
      exact ⟨parts, .right built, rfl⟩
  | many _ ih =>
      obtain ⟨groups, built, rfl⟩ := exists_groups ih
      exact ⟨groups.flatten, .many built, tokensAll_flatten groups⟩
  | upTo few _ ih =>
      obtain ⟨groups, built, rfl⟩ := exists_groups ih
      rw [List.length_map] at few
      exact ⟨groups.flatten, .upTo few built, tokensAll_flatten groups⟩

/-! ## Shapes -/

/-- What a form says of parts and those behind them, when `R` is known of the parts of each rule. -/
def Form.Shape (R : Rule → List ParseTree → Prop) :
    Form → List ParseTree → List ParseTree → Prop
  | token kind, parts, rest => ∃ token, parts = .leaf token :: rest ∧ token.kind = kind
  | rule name, parts, rest => ∃ inner, parts = .node name inner :: rest ∧ R name inner
  | never, _, _ => False
  | nothing, parts, rest => parts = rest
  | both first second, parts, rest => ∃ mid, first.Shape R parts mid ∧ second.Shape R mid rest
  | either left right, parts, rest => left.Shape R parts rest ∨ right.Shape R parts rest
  | many form, parts, rest => Relation.ReflTransGen (form.Shape R) parts rest
  | upTo most form, parts, rest => Repeats (form.Shape R) most parts rest

/-- A choice between tokens is one token of one of the kinds. -/
lemma Form.shape_oneOf_tokens {R : Rule → List ParseTree → Prop} {parts rest : List ParseTree}
    (kinds : List Kind) (shape : (oneOf (kinds.map token)).Shape R parts rest) :
    ∃ token, parts = .leaf token :: rest ∧ token.kind ∈ kinds := by
  induction kinds with
  | nil => exact shape.elim
  | cons kind kinds ih =>
      rcases shape with ⟨token, rfl, rfl⟩ | shape
      · exact ⟨token, rfl, List.mem_cons_self⟩
      · obtain ⟨token, rfl, listed⟩ := ih shape
        exact ⟨token, rfl, List.mem_cons_of_mem kind listed⟩

/-- **What is built has the shape of its form**, with all that follows for a rule from the shape of
its parts known of each rule in it. -/
theorem Builds.shape {R : Rule → List ParseTree → Prop}
    (known : ∀ name parts, (table name).Shape R parts [] → R name parts)
    {parts : List ParseTree} (built : Builds table form parts) :
    ∀ rest, form.Shape R (parts ++ rest) rest := by
  induction built with
  | token kind => exact fun rest => ⟨_, rfl, kind⟩
  | @rule name inner _ ih =>
      intro rest
      have shape := ih []
      rw [List.append_nil] at shape
      exact ⟨inner, rfl, known name inner shape⟩
  | nothing => exact fun rest => rfl
  | both _ _ ihfirst ihsecond =>
      intro rest
      rw [List.append_assoc]
      exact ⟨_, ihfirst _, ihsecond rest⟩
  | left _ ih => exact fun rest => Or.inl (ih rest)
  | right _ ih => exact fun rest => Or.inr (ih rest)
  | many _ ih => exact reflTransGen_flatten ih
  | upTo few _ ih => exact repeats_flatten few ih

end LoxLang
