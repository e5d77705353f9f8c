import Mathlib
import LoxLang.Proofs.ForLoop.Tree

/-!
# The parser writes `for` loops as blocks

The parser that keeps `for` loops reads the same tokens and reports the same errors as the parser of
programs.  What they give differs in the loops only.

* `Parser.Maps` — a parser does what another one does, and changes what it gives.
* `Looped.MapsStatements` — the parsers of statements up to an allowance.
* **`Looped.parse_desugared`** — the parser of programs gives what the other one gives, without loops.
-/

namespace LoxLang

namespace Parser

variable {α β γ δ : Type}

/-- The parser does what `plain` does, and gives `f` of what that gives. -/
def Maps (f : α → β) (plain : Parser α) (parser : Parser β) : Prop :=
  ∀ tokens, parser tokens =
    ⟨(plain tokens).reports, (plain tokens).rest, (plain tokens).outcome.map f⟩

namespace Maps

lemma same (parser : Parser α) : Maps id parser parser := by
  intro tokens
  rcases parser tokens with ⟨reports, rest, _ | value⟩ <;> rfl

lemma pure {f : α → β} {value : α} {value' : β} (given : value' = f value) :
    Maps f (Pure.pure value) (Pure.pure value') := by
  subst given
  exact fun _ => rfl

lemma raise {f : α → β} (error : SyntaxError) : Maps f (Parser.raise error) (Parser.raise error) :=
  fun _ => rfl

lemma bind {f : α → β} {g : γ → δ} {plain : Parser α} {parser : Parser β} {next : α → Parser γ}
    {next' : β → Parser δ} (first : Maps f plain parser)
    (second : ∀ value, Maps g (next value) (next' (f value))) :
    Maps g (plain >>= next) (parser >>= next') := by
  intro tokens
  show Parser.bind parser next' tokens = ⟨(Parser.bind plain next tokens).reports,
    (Parser.bind plain next tokens).rest, (Parser.bind plain next tokens).outcome.map g⟩
  unfold Parser.bind
  rw [first tokens]
  rcases plain tokens with ⟨reports, rest, error | value⟩
  · rfl
  · simp only [Except.map, second value rest]

/-- What is given may be one of the things that can be left out. -/
lemma given {f : α → β} {plain : Parser α} {parser : Parser β} (whole : Maps f plain parser) :
    Maps (Option.map f) (some <$> plain) (some <$> parser) := whole.bind fun _ => .pure rfl

/-- The same first part. -/
lemma after {g : γ → δ} (first : Parser α) {next : α → Parser γ} {next' : α → Parser δ}
    (second : ∀ value, Maps g (next value) (next' value)) :
    Maps g (first >>= next) (first >>= next') := (same first).bind second

/-- What the plain parser gives may be changed first. -/
lemma of_map {f : α → β} {g : γ → β} {h : α → γ} {plain : Parser α} {parser : Parser β}
    (whole : Maps f plain parser) (same : ∀ value, f value = g (h value)) :
    Maps g (h <$> plain) parser := by
  intro tokens
  have mapped : (h <$> plain) tokens = Parser.bind plain (fun value => Pure.pure (h value)) tokens :=
    rfl
  rw [whole tokens, mapped, Parser.bind]
  rcases plain tokens with ⟨reports, rest, error | value⟩
  · rfl
  · have unchanged : reports ++ [] = reports := List.append_nil reports
    simp only [Except.map, same value]
    exact congrArg (Step.mk · rest (.ok (g (h value)))) unchanged.symm

lemma recovering {f : α → β} {plain : Parser α} {parser : Parser β} (inner : Maps f plain parser) :
    Maps (Option.map f) (Parser.recovering plain) (Parser.recovering parser) := by
  intro tokens
  unfold Parser.recovering
  rw [inner tokens]
  rcases plain tokens with ⟨reports, rest, error | value⟩ <;> rfl

end Maps

end Parser

namespace Looped

open LoxLang.Parser (Maps Opening)

/-! ## Parts without statements -/

variable {α β : Type}

/-- What a variable is made into does not matter to the reading. -/
lemma maps_variableDeclaration {f : α → β} {make : Token → Option Expr → α}
    {make' : Token → Option Expr → β} (same : ∀ name value, make' name value = f (make name value)) :
    Maps f (Parser.reader.variableDeclaration Parser.expression make)
      (Parser.reader.variableDeclaration Parser.expression make') := by
  refine .after _ fun name => .after _ fun equals => ?_
  cases equals with
  | some token => exact .after _ fun value => .after _ fun _ => .pure (same name _)
  | none => exact .after _ fun value => .after _ fun _ => .pure (same name _)

lemma maps_valueStatement {f : α → β} {make : Expr → α} {make' : Expr → β} (what : Expectation)
    (same : ∀ value, make' value = f (make value)) :
    Maps f (Parser.reader.valueStatement Parser.expression what make)
      (Parser.reader.valueStatement Parser.expression what make') :=
  .after _ fun value => .after _ fun _ => .pure (same value)

lemma maps_forClauses (n : Nat) :
    Maps (fun given : Option Initializer × Option Expr × Option Expr =>
      (given.1.map Initializer.desugared, given.2)) (assembly.forClauses n)
      (Parser.assembly.forClauses n) := by
  have first : Maps (Option.map Initializer.desugared)
      (Parser.reader.forInitializer Parser.expression Initializer.variable Initializer.expression)
      (Parser.reader.forInitializer Parser.expression Stmt.variable Stmt.expression) := by
    refine .after _ fun semicolon => ?_
    cases semicolon with
    | some token => exact .pure rfl
    | none =>
        refine .after _ fun keyword => ?_
        cases keyword with
        | some token => exact .given (maps_variableDeclaration fun _ _ => rfl)
        | none => exact .given (maps_valueStatement _ fun _ => rfl)
  exact .after _ fun _ => first.bind fun _ => .after _ fun _ => .after _ fun _ =>
    .after _ fun _ => .after _ fun _ => .pure rfl

/-! ## Statements -/

lemma desugaredAll_toList (first : Option Declaration) (others : List Declaration) :
    (first.map Declaration.desugared).toList ++ Declaration.desugaredAll others =
      Declaration.desugaredAll (first.toList ++ others) := by
  cases first <;> rfl

/-- With `n` steps allowed, the parsers of statements give what the others give, without loops. -/
structure MapsStatements (n : Nat) : Prop where
  declaration : Maps (Option.map Declaration.desugared) (assembly.declaration n)
    (Parser.assembly.declaration n)
  statement : Maps Statement.desugared (assembly.statement n) (Parser.assembly.statement n)
  block : Maps Declaration.desugaredAll (assembly.block n) (Parser.assembly.block n)
  declarations : ∀ closing, Maps Declaration.desugaredAll (assembly.declarations n closing)
    (Parser.assembly.declarations n closing)

namespace MapsStatements

variable {n : Nat}

lemma declaration_succ (ih : MapsStatements n) : Maps (Option.map Declaration.desugared)
    (assembly.declaration (n + 1)) (Parser.assembly.declaration (n + 1)) := by
  refine .recovering (.after _ fun keyword => ?_)
  cases keyword with
  | some token => exact .after _ fun _ => ih.block.bind fun _ => .pure rfl
  | none =>
      refine .after _ fun keyword => ?_
      cases keyword with
      | some token => exact maps_variableDeclaration fun _ _ => rfl
      | none => exact ih.statement.of_map fun _ => rfl

lemma statement_succ (ih : MapsStatements n) : Maps Statement.desugared
    (assembly.statement (n + 1)) (Parser.assembly.statement (n + 1)) := by
  refine .after _ fun opening => ?_
  rcases opening with _ | opening
  · exact maps_valueStatement _ fun _ => rfl
  · cases opening with
    | forLoop => exact (maps_forClauses n).bind fun _ => ih.statement.bind fun _ => .pure rfl
    | branch =>
        refine .after _ fun _ => ih.statement.bind fun _ => .after _ fun otherwise => ?_
        cases otherwise with
        | some token => exact ih.statement.bind fun _ => .pure rfl
        | none => exact .pure rfl
    | loop => exact .after _ fun _ => ih.statement.bind fun _ => .pure rfl
    | return_ keyword => exact .after _ fun _ => .after _ fun _ => .pure rfl
    | print => exact maps_valueStatement _ fun _ => rfl
    | block => exact ih.block.bind fun _ => .pure rfl

lemma declarations_succ (ih : MapsStatements n) (closing : Option Kind) :
    Maps Declaration.desugaredAll (assembly.declarations (n + 1) closing)
      (Parser.assembly.declarations (n + 1) closing) := by
  refine .after _ fun stop => ?_
  cases stop with
  | true => exact .pure rfl
  | false =>
      exact ih.declaration.bind fun _ => (ih.declarations closing).bind fun _ =>
        .pure (desugaredAll_toList _ _)

end MapsStatements

theorem mapsStatements (n : Nat) : MapsStatements n := by
  induction n with
  | zero => exact ⟨.recovering (.raise _), .raise _, .raise _, fun _ => .pure rfl⟩
  | succ n ih => exact ⟨ih.declaration_succ, ih.statement_succ,
      (ih.declarations _).bind fun _ => .after _ fun _ => .pure rfl, ih.declarations_succ⟩

/-- **The parser of programs writes every `for` loop as blocks**, and does nothing else. -/
theorem parse_desugared (tokens : List Token) : Program.parse tokens =
    ⟨Declaration.desugaredAll (parse tokens).tree, (parse tokens).reports⟩ := by
  have whole := (mapsStatements (Parser.allowance (Program.beforeEnd tokens))).declarations none
    (Program.beforeEnd tokens)
  rw [(Parser.assembly_rules _).declarations] at whole
  simp only [Program.parse, parse, whole]
  rcases assembly.declarations (Parser.allowance (Program.beforeEnd tokens)) none
    (Program.beforeEnd tokens) with ⟨reports, rest, error | value⟩ <;> rfl

end Looped

end LoxLang
