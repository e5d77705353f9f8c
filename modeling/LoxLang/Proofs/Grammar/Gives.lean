import LoxLang.Grammar.Statement
import Mathlib

/-!
# When a parser ends with a value

`Parser.Gives` says that a parser ends with a value, what it reports on the way and which tokens it
leaves.  For each way to put parsers together one equivalence says when that happens, so that a
parser of the grammar is taken apart, or run, by rewriting with them.

* `Stops` — the next token is of none of the kinds that would be read.
* `overfull` — the report about a list element beyond the limit.
* **`Parser.gives_bind`** and the lemmas after it — one for each combinator.
* `Parser.Gives.bind` and the lemmas after it — the same, for steps that are known to succeed.
-/

namespace LoxLang

/-- The first token, if there is one, is of none of these kinds. -/
def Stops (kinds : List Kind) (tokens : List Token) : Prop :=
  ∀ token ∈ tokens.head?, token.kind ∉ kinds

@[simp] lemma stops_nil (kinds : List Kind) : Stops kinds [] := by simp [Stops]

@[simp] lemma stops_cons {kinds : List Kind} {token : Token} {rest : List Token} :
    Stops kinds (token :: rest) ↔ token.kind ∉ kinds := by simp [Stops]

lemma Stops.mono {few many : List Kind} {tokens : List Token} (stops : Stops many tokens)
    (sub : few ⊆ many) : Stops few tokens :=
  fun token found mem => stops token found (sub mem)

/-- The report about a list element, if it is one too many. -/
def overfull (error : SyntaxError) (count : Nat) (tokens : List Token) : List SyntaxReport :=
  if maxArguments ≤ count then [⟨error, tokens⟩] else []

lemma overfull_eq_nil {error : SyntaxError} {count : Nat} {tokens : List Token} :
    overfull error count tokens = [] ↔ count < maxArguments := by
  rw [overfull]
  split_ifs with h
  · simpa using h
  · simpa using h

lemma overfull_of_lt {error : SyntaxError} {count : Nat} {tokens : List Token}
    (below : count < maxArguments) : overfull error count tokens = [] :=
  overfull_eq_nil.mpr below

namespace Parser

variable {α β : Type} {tokens rest : List Token} {reports : List SyntaxReport}

/-- The parser reads `tokens` up to `rest`, with reports, and ends with a value. -/
def Gives (parser : Parser α) (tokens : List Token) (reports : List SyntaxReport)
    (rest : List Token) (value : α) : Prop :=
  parser tokens = ⟨reports, rest, .ok value⟩

/-! ## Single steps -/

@[simp] lemma gives_pure {given value : α} :
    Gives (pure given : Parser α) tokens reports rest value
      ↔ reports = [] ∧ rest = tokens ∧ value = given := by
  change (⟨[], tokens, .ok given⟩ : Step α) = _ ↔ _
  simp only [Step.mk.injEq, Except.ok.injEq]
  constructor
  · rintro ⟨rfl, rfl, rfl⟩
    exact ⟨rfl, rfl, rfl⟩
  · rintro ⟨rfl, rfl, rfl⟩
    exact ⟨rfl, rfl, rfl⟩

@[simp] lemma gives_raise {error : SyntaxError} {value : α} :
    Gives (raise error : Parser α) tokens reports rest value ↔ False := by
  simp [Gives, raise]

lemma gives_bind {first : Parser α} {second : α → Parser β} {value : β} :
    Gives (first >>= second) tokens reports rest value
      ↔ ∃ before mid middle after, Gives first tokens before mid middle
        ∧ Gives (second middle) mid after rest value ∧ reports = before ++ after := by
  simp only [Gives]
  change Parser.bind first second tokens = _ ↔ _
  simp only [Parser.bind]
  constructor
  · intro h
    rcases step : first tokens with ⟨before, mid, outcome⟩
    rw [step] at h
    cases outcome with
    | error error => simp at h
    | ok middle =>
        simp only [Step.mk.injEq] at h
        obtain ⟨silent, restGives, valueGiven⟩ := h
        refine ⟨before, mid, middle, (second middle mid).reports, rfl, ?_, silent.symm⟩
        rw [← restGives, ← valueGiven]
  · rintro ⟨before, mid, middle, after, firstGives, secondGives, rfl⟩
    rw [firstGives]
    simp only [secondGives]

/-- Without reports there are none on the way. -/
lemma gives_bind_silent {first : Parser α} {second : α → Parser β} {value : β} :
    Gives (first >>= second) tokens [] rest value
      ↔ ∃ mid middle, Gives first tokens [] mid middle ∧ Gives (second middle) mid [] rest value := by
  rw [gives_bind]
  constructor
  · rintro ⟨before, mid, middle, after, firstGives, secondGives, silent⟩
    obtain ⟨rfl, rfl⟩ := List.nil_eq_append_iff.mp silent
    exact ⟨mid, middle, firstGives, secondGives⟩
  · rintro ⟨mid, middle, firstGives, secondGives⟩
    exact ⟨[], mid, middle, [], firstGives, secondGives, rfl⟩

lemma gives_map {parser : Parser α} {f : α → β} {value : β} :
    Gives (f <$> parser) tokens reports rest value
      ↔ ∃ given, Gives parser tokens reports rest given ∧ value = f given := by
  change Gives (parser >>= fun given => pure (f given)) tokens reports rest value ↔ _
  rw [gives_bind]
  constructor
  · rintro ⟨before, mid, given, after, gives, yields, rfl⟩
    rw [gives_pure] at yields
    obtain ⟨rfl, rfl, rfl⟩ := yields
    exact ⟨given, by simpa using gives, rfl⟩
  · rintro ⟨given, gives, rfl⟩
    exact ⟨reports, rest, given, [], gives, by simp, by simp⟩

lemma gives_expression {value : Expr} :
    Gives expression tokens reports rest value
      ↔ Gives (assignment (allowance tokens)) tokens reports rest value := by
  simp only [Gives, expression]

lemma gives_parameters {names : List Token} :
    Gives (fun tokens => parameters (allowance tokens) 0 tokens) tokens reports rest names
      ↔ Gives (parameters (allowance tokens) 0) tokens reports rest names := by
  simp only [Gives]

lemma gives_recovering {parser : Parser α} {found : Option α} :
    Gives (recovering parser) tokens [] rest found
      ↔ ∃ value, found = some value ∧ Gives parser tokens [] rest value := by
  simp only [Gives, recovering]
  rcases step : parser tokens with ⟨reports, mid, outcome⟩
  cases outcome with
  | error error => simp
  | ok value =>
      simp only [Step.mk.injEq, Except.ok.injEq]
      constructor
      · rintro ⟨rfl, rfl, rfl⟩
        exact ⟨value, rfl, rfl, rfl, rfl⟩
      · rintro ⟨_, rfl, rfl, rfl, rfl⟩
        exact ⟨rfl, rfl, rfl⟩

/-- What is read without a raised error needs no recovery. -/
lemma Gives.recovering {parser : Parser α} {value : α}
    (gives : Gives parser tokens reports rest value) :
    Gives (recovering parser) tokens reports rest (some value) := by
  rw [Gives] at gives
  rw [Gives, Parser.recovering, gives]

/-! ## Looking at the next token before going on -/

lemma gives_ahead {second : List Token → Parser β} {value : β} :
    Gives (ahead >>= second) tokens reports rest value
      ↔ Gives (second tokens) tokens reports rest value := Iff.rfl

lemma gives_isNext {kind : Kind} {second : Bool → Parser β} {value : β} :
    Gives (isNext kind >>= second) tokens reports rest value
      ↔ (∃ token behind, tokens = token :: behind ∧ token.kind = kind
          ∧ Gives (second true) tokens reports rest value)
        ∨ (Stops [kind] tokens ∧ Gives (second false) tokens reports rest value) := by
  change Gives (second (tokens.head?.any (·.kind == kind))) tokens reports rest value ↔ _
  cases tokens with
  | nil => simp
  | cons token behind =>
      by_cases same : token.kind = kind
      · simp [same]
      · simp [same, beq_eq_false_iff_ne.mpr same]

lemma gives_acceptMap {f : Token → Option α} {second : Option α → Parser β} {value : β} :
    Gives (acceptMap f >>= second) tokens reports rest value
      ↔ (∃ token mid found, tokens = token :: mid ∧ f token = some found
          ∧ Gives (second (some found)) mid reports rest value)
        ∨ ((∀ token ∈ tokens.head?, f token = none)
          ∧ Gives (second none) tokens reports rest value) := by
  rw [gives_bind]
  cases tokens with
  | nil => simp [Gives, acceptMap]
  | cons token mid =>
      cases finds : f token <;> simp [Gives, acceptMap, finds]

lemma gives_accept {kind : Kind} {second : Option Token → Parser β} {value : β} :
    Gives (accept kind >>= second) tokens reports rest value
      ↔ (∃ token mid, tokens = token :: mid ∧ token.kind = kind
          ∧ Gives (second (some token)) mid reports rest value)
        ∨ (Stops [kind] tokens ∧ Gives (second none) tokens reports rest value) := by
  rw [accept, gives_acceptMap]
  simp only [Option.ite_none_right_eq_some, Option.some.injEq, ite_eq_right_iff, reduceCtorEq,
    imp_false, Stops, List.mem_singleton]
  constructor
  · rintro (⟨token, mid, _, rfl, ⟨same, rfl⟩, h⟩ | h)
    · exact Or.inl ⟨token, mid, rfl, same, h⟩
    · exact Or.inr h
  · rintro (⟨token, mid, rfl, same, h⟩ | h)
    · exact Or.inl ⟨token, mid, token, rfl, ⟨same, rfl⟩, h⟩
    · exact Or.inr h

lemma gives_acceptAny {kinds : List Kind} {second : Option Token → Parser β} {value : β} :
    Gives (acceptAny kinds >>= second) tokens reports rest value
      ↔ (∃ token mid, tokens = token :: mid ∧ token.kind ∈ kinds
          ∧ Gives (second (some token)) mid reports rest value)
        ∨ (Stops kinds tokens ∧ Gives (second none) tokens reports rest value) := by
  rw [acceptAny, gives_acceptMap]
  simp only [Option.ite_none_right_eq_some, Option.some.injEq, ite_eq_right_iff, reduceCtorEq,
    imp_false, Stops, List.contains_eq_mem, decide_eq_true_eq]
  constructor
  · rintro (⟨token, mid, _, rfl, ⟨same, rfl⟩, h⟩ | h)
    · exact Or.inl ⟨token, mid, rfl, same, h⟩
    · exact Or.inr h
  · rintro (⟨token, mid, rfl, same, h⟩ | h)
    · exact Or.inl ⟨token, mid, token, rfl, ⟨same, rfl⟩, h⟩
    · exact Or.inr h

lemma gives_expect {kind : Kind} {what : Expectation} {second : Token → Parser β} {value : β} :
    Gives (expect kind what >>= second) tokens reports rest value
      ↔ ∃ token mid, tokens = token :: mid ∧ token.kind = kind
        ∧ Gives (second token) mid reports rest value := by
  rw [gives_bind]
  simp only [expect, gives_accept]
  constructor
  · rintro ⟨before, mid, given, after, ⟨token, behind, rfl, same, read⟩ | ⟨_, read⟩, secondGives, rfl⟩
    · obtain ⟨rfl, rfl, rfl⟩ := gives_pure.mp read
      exact ⟨_, _, rfl, same, secondGives⟩
    · exact absurd read (by simp)
  · rintro ⟨token, mid, rfl, same, secondGives⟩
    exact ⟨[], mid, token, reports, Or.inl ⟨token, mid, rfl, same, by simp⟩, secondGives, rfl⟩

lemma gives_overfull {error : SyntaxError} {count : Nat} {here : List Token}
    {second : Unit → Parser β} {value : β} :
    Gives (if maxArguments ≤ count then report error here >>= second else second ())
        tokens reports rest value
      ↔ ∃ after, Gives (second ()) tokens after rest value
        ∧ reports = overfull error count here ++ after := by
  rw [overfull]
  split_ifs with h
  · rw [gives_bind]
    constructor
    · rintro ⟨before, mid, _, after, reported, secondGives, rfl⟩
      cases reported
      exact ⟨after, secondGives, rfl⟩
    · rintro ⟨after, secondGives, rfl⟩
      exact ⟨_, tokens, (), after, rfl, secondGives, rfl⟩
  · simp

/-! ## Steps that succeed -/

section Succeeds

variable {mid : List Token} {before after : List SyntaxReport} {first : Parser α}
  {second : α → Parser β} {given : α} {value : β} {kind : Kind} {token : Token}

lemma Gives.bind (gives : Gives first tokens before mid given)
    (secondGives : Gives (second given) mid after rest value) :
    Gives (first >>= second) tokens (before ++ after) rest value :=
  gives_bind.mpr ⟨before, mid, given, after, gives, secondGives, rfl⟩

/-- To make a value of what was read takes no tokens. -/
lemma Gives.returned {f : α → β} (gives : Gives first tokens reports rest given) :
    Gives (first >>= fun given => pure (f given)) tokens reports rest (f given) := by
  have yields : Gives (pure (f given)) rest [] rest (f given) := gives_pure.mpr ⟨rfl, rfl, rfl⟩
  rw [← List.append_nil reports]
  exact gives.bind yields

lemma Gives.expected {what : Expectation} {second : Token → Parser β} (tokenKind : token.kind = kind)
    (secondGives : Gives (second token) tokens reports rest value) :
    Gives (expect kind what >>= second) (token :: tokens) reports rest value :=
  gives_expect.mpr ⟨token, tokens, rfl, tokenKind, secondGives⟩

/-- What was read, with the token that ends it. -/
lemma Gives.closed {what : Expectation} {f : α → β}
    (gives : Gives first tokens reports (token :: rest) given) (tokenKind : token.kind = kind) :
    Gives (first >>= fun given => expect kind what >>= fun _ => pure (f given)) tokens reports rest
      (f given) := by
  have yields : Gives (pure (f given)) rest [] rest (f given) := gives_pure.mpr ⟨rfl, rfl, rfl⟩
  rw [← List.append_nil reports]
  exact gives.bind (yields.expected tokenKind)

lemma Gives.accepted {second : Option Token → Parser β} (tokenKind : token.kind = kind)
    (secondGives : Gives (second (some token)) tokens reports rest value) :
    Gives (accept kind >>= second) (token :: tokens) reports rest value :=
  gives_accept.mpr (Or.inl ⟨token, tokens, rfl, tokenKind, secondGives⟩)

lemma Gives.passed {second : Option Token → Parser β} (stops : Stops [kind] tokens)
    (secondGives : Gives (second none) tokens reports rest value) :
    Gives (accept kind >>= second) tokens reports rest value :=
  gives_accept.mpr (Or.inr ⟨stops, secondGives⟩)

end Succeeds

/-! ## What announces a statement -/

/-- The token announces this form of statement. -/
def Opening.Announced (token : Token) : Opening → Prop
  | .forLoop => token.kind = .keyword .for_
  | .branch => token.kind = .keyword .if_
  | .loop => token.kind = .keyword .while_
  | .return_ keyword => token.kind = .keyword .return_ ∧ keyword = token
  | .print => token.kind = .keyword .print
  | .block => token.kind = .leftBrace

lemma Opening.ofToken?_eq_some {token : Token} {opening : Opening} :
    Opening.ofToken? token = some opening ↔ opening.Announced token := by
  rcases token with ⟨kind, lexeme, literal, line⟩
  cases opening <;> simp only [Opening.ofToken?, Opening.Announced] <;> split <;> simp_all [eq_comm]

lemma Gives.announced {second : Option Opening → Parser β} {token : Token} {value : β}
    (opening : Opening) (tokenKind : opening.Announced token)
    (secondGives : Gives (second (some opening)) tokens reports rest value) :
    Gives (acceptMap Opening.ofToken? >>= second) (token :: tokens) reports rest value :=
  gives_acceptMap.mpr
    (Or.inl ⟨token, tokens, opening, rfl, Opening.ofToken?_eq_some.mpr tokenKind, secondGives⟩)

end Parser

end LoxLang
