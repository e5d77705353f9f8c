import LoxLang.Proofs.Program.Legible
import Mathlib

/-!
# The text of a tree as an outline

The text of a tree is that of an outline.  A legible tree has words in it that no blank and no
parenthesis stands in, so that the text gives the outline.

* `Expr.outline`, `Stmt.outline` — the words of a tree and how they are nested.
* `Expr.toList_shown`, `Stmt.toList_shown` — the text of a tree is the text of its outline.
* `Expr.proper_outline`, `Stmt.proper_outline` — the words of a legible tree can be told apart.
* **`Stmt.outline_eq_iff`** — legible statements have the same text exactly if they have the same
  outline.
-/

namespace LoxLang

mutual

/-- The outline of an expression. -/
def Expr.outline : Expr → Outline
  | .literal value => .word value.shown
  | .group inner => .form [.word "group", inner.outline]
  | .unary operator operand => .form [.word operator.lexeme, operand.outline]
  | .binary left operator right => .form [.word operator.lexeme, left.outline, right.outline]
  | .logical left operator right => .form [.word operator.lexeme, left.outline, right.outline]
  | .variable name _ => .word name.lexeme
  | .assign name value _ => .form [.word "=", .word name.lexeme, value.outline]
  | .call callee _ arguments => .form (.word "call" :: callee.outline :: Expr.outlineAll arguments)

/-- The outlines of arguments. -/
def Expr.outlineAll : List Expr → List Outline
  | [] => []
  | first :: others => first.outline :: Expr.outlineAll others

end

/-- The outline of an expression that may be left out. -/
def Expr.outline? : Option Expr → List Outline
  | none => []
  | some value => [value.outline]

/-- The outline of a name. -/
def Token.outline (name : Token) : Outline := .word name.lexeme

mutual

/-- The outline of a statement. -/
def Stmt.outline : Stmt → Outline
  | .expression value => .form [.word ";", value.outline]
  | .print value => .form [.word "print", value.outline]
  | .variable name initializer =>
    .form (.word "var" :: name.outline :: Expr.outline? initializer)
  | .block body => .form (.word "block" :: Stmt.outlineAll body)
  | .branch condition consequent alternative =>
    .form (.word "if" :: condition.outline :: consequent.outline :: Stmt.outlineElse alternative)
  | .loop condition body => .form [.word "while", condition.outline, body.outline]
  | .function name parameters body =>
    .form (.word "fun" :: name.outline :: .form (parameters.map Token.outline)
      :: Stmt.outlineAll body)
  | .return_ _ value => .form (.word "return" :: Expr.outline? value)

/-- The outlines of statements. -/
def Stmt.outlineAll : List Stmt → List Outline
  | [] => []
  | first :: others => first.outline :: Stmt.outlineAll others

/-- The outline of the other branch, if there is one. -/
def Stmt.outlineElse : Option Stmt → List Outline
  | none => []
  | some alternative => [alternative.outline]

end

/-! ## The text of an outline -/

open Outline (chars proper_word)

/-- Texts with a blank in front of each are those of their outlines. -/
lemma toList_spaced : ∀ {texts : List String} {parts : List Outline},
    texts.map String.toList = parts.map chars → (spaced texts).toList = Outline.spaced parts
  | [], [], _ => rfl
  | text :: texts, part :: parts, same => by
      obtain ⟨first, others⟩ := List.cons.inj same
      have behind := toList_spaced others
      rw [spaced] at behind ⊢
      rw [List.map_cons, String.join_cons, String.toList_append, String.toList_append, behind,
        Outline.spaced, first]
      rfl

/-- A form behind a word is that of its outlines. -/
lemma toList_form (word : String) {texts : List String} {parts : List Outline}
    (same : texts.map String.toList = parts.map chars) :
    (form word texts).toList = (Outline.form (.word word :: parts)).chars := by
  rw [form, String.toList_append, String.toList_append, String.toList_append, toList_spaced same]
  simp only [chars, Outline.joined, List.append_assoc]
  rfl

/-- Names in parentheses are the outline of the names. -/
lemma toList_names (names : List Token) :
    ("(" ++ " ".intercalate (names.map Token.lexeme) ++ ")").toList =
      (Outline.form (names.map Token.outline)).chars := by
  have inside : ∀ names : List Token,
      (" ".intercalate (names.map Token.lexeme)).toList = Outline.joined (names.map Token.outline) := by
    intro names
    rw [String.toList_intercalate]
    cases names with
    | nil => rfl
    | cons first others =>
      induction others generalizing first with
      | nil => simp [Outline.joined, Outline.spaced, Token.outline, chars]
      | cons next others ih =>
        rw [List.map_cons, List.map_cons, List.map_cons, List.map_cons, List.intercalate_cons_cons]
        have behind := ih next
        rw [List.map_cons, List.map_cons] at behind
        rw [behind]
        simp [Outline.joined, Outline.spaced, Token.outline, chars]
  rw [String.toList_append, String.toList_append, inside, chars]
  rfl

mutual

/-- The text of an expression is that of its outline. -/
theorem Expr.toList_shown : (value : Expr) → value.shown.toList = value.outline.chars
  | .literal _ => rfl
  | .group inner => toList_form _ (by simp only [List.map_cons, List.map_nil, inner.toList_shown])
  | .unary _ operand =>
      toList_form _ (by simp only [List.map_cons, List.map_nil, operand.toList_shown])
  | .binary left _ right =>
      toList_form _ (by simp only [List.map_cons, List.map_nil, left.toList_shown, right.toList_shown])
  | .logical left _ right =>
      toList_form _ (by simp only [List.map_cons, List.map_nil, left.toList_shown, right.toList_shown])
  | .variable _ _ => rfl
  | .assign _ value _ =>
      toList_form _ (by simp only [List.map_cons, List.map_nil, chars, value.toList_shown])
  | .call callee _ arguments =>
      toList_form _ (by simp only [List.map_cons, callee.toList_shown, Expr.toList_shownAll arguments])

/-- The texts of arguments are those of their outlines. -/
theorem Expr.toList_shownAll : (values : List Expr) →
    (Expr.shownAll values).map String.toList = (Expr.outlineAll values).map chars
  | [] => rfl
  | first :: others => by
      simp only [Expr.shownAll, Expr.outlineAll, List.map_cons, first.toList_shown,
        Expr.toList_shownAll others]

end

lemma Expr.toList_shown? (value : Option Expr) :
    (value.map Expr.shown).toList.map String.toList = (Expr.outline? value).map chars := by
  cases value with
  | none => rfl
  | some value => simp only [Option.map_some, Option.toList_some, Expr.outline?, List.map_cons,
      List.map_nil, value.toList_shown]

mutual

/-- The text of a statement is that of its outline. -/
theorem Stmt.toList_shown : (stmt : Stmt) → stmt.shown.toList = stmt.outline.chars
  | .expression value => toList_form _ (by simp only [List.map_cons, List.map_nil, value.toList_shown])
  | .print value => toList_form _ (by simp only [List.map_cons, List.map_nil, value.toList_shown])
  | .variable name initializer =>
      toList_form _ (by simp only [List.map_cons, Expr.toList_shown? initializer, Token.outline, chars])
  | .block body => toList_form _ (Stmt.toList_shownAll body)
  | .branch condition consequent alternative =>
      toList_form _ (by simp only [List.map_cons, condition.toList_shown, consequent.toList_shown,
        Stmt.toList_shownElse alternative])
  | .loop condition body =>
      toList_form _ (by simp only [List.map_cons, List.map_nil, condition.toList_shown,
        body.toList_shown])
  | .function name parameters body =>
      toList_form _ (by simp only [List.map_cons, toList_names parameters, Stmt.toList_shownAll body,
        Token.outline, chars])
  | .return_ _ value => toList_form _ (Expr.toList_shown? value)

/-- The texts of statements are those of their outlines. -/
theorem Stmt.toList_shownAll : (stmts : List Stmt) →
    (Stmt.shownAll stmts).map String.toList = (Stmt.outlineAll stmts).map chars
  | [] => rfl
  | first :: others => by
      simp only [Stmt.shownAll, Stmt.outlineAll, List.map_cons, first.toList_shown,
        Stmt.toList_shownAll others]

/-- The text of the other branch is that of its outline. -/
theorem Stmt.toList_shownElse : (stmt : Option Stmt) →
    (Stmt.shownElse stmt).map String.toList = (Stmt.outlineElse stmt).map chars
  | none => rfl
  | some alternative => by
      simp only [Stmt.shownElse, Stmt.outlineElse, List.map_cons, List.map_nil,
        alternative.toList_shown]

end

/-! ## The words of legible trees -/

/-- A lexeme that is neither a quoted text nor a parenthesis is a word. -/
lemma isWord_of_lexeme {text : String} {kind : Kind} {literal : Option Literal}
    (entry : Lexeme text.toList kind literal)
    (plain : kind ∉ [Kind.string, .leftParen, .rightParen]) : Outline.IsWord text := by
  refine ⟨entry.proper.2, fun c mem separates => plain ?_⟩
  have table : ∀ symbol ∈ Kind.symbols, symbol ∉ [Kind.leftParen, .rightParen] →
      ∀ text ∈ symbol.spelling?.toList, Outline.IsWord text := by decide
  have odd : ¬IsNameChar c ∧ c ≠ '.' := by
    rcases separates with rfl | rfl | rfl <;> simp [IsNameChar]
  rcases entry.symbol_or_quoted mem odd.1 odd.2 with
    ⟨symbol, listed, text', spelled, same⟩ | ⟨body, same, open_⟩
  · have spelled' : symbol.spelling? = some text' := Option.mem_toList.mp spelled
    obtain ⟨rfl, -⟩ := entry.functional (same ▸ Lexeme.symbol listed spelled')
    rw [same] at mem
    by_contra other
    exact (table kind listed (fun paren => other (List.mem_cons_of_mem _ paren)) text' spelled).2
      c mem separates
  · obtain ⟨rfl, -⟩ := entry.functional (same ▸ Lexeme.string open_)
    exact List.mem_cons_self

lemma Constant.isWord_shown {value : Constant} (plain : value.Plain) :
    Outline.IsWord value.shown := by
  refine isWord_of_lexeme (lexeme plain) ?_
  rcases value with _ | (_ | _) | x | s
  · decide
  · decide
  · decide
  · exact (by decide : Kind.number ∉ [Kind.string, .leftParen, .rightParen])
  · exact plain.elim

lemma Token.IsNameToken.isWord {name : Token} (named : name.IsNameToken) :
    Outline.IsWord name.lexeme :=
  isWord_of_lexeme named.2 (by rw [named.1]; decide)

/-- Operators are words. -/
lemma Token.Listed.isWord_of_mem {operator : Token} {kinds : List Kind} (listed : operator.Listed)
    (mem : operator.kind ∈ kinds)
    (plain : ∀ kind ∈ kinds, kind ∉ [Kind.string, .leftParen, .rightParen]) :
    Outline.IsWord operator.lexeme :=
  isWord_of_lexeme listed (plain _ mem)

lemma Token.Listed.isWord_of_precedence {operator : Token} (listed : operator.Listed)
    (tight : 3 ≤ operator.kind.precedence) : Outline.IsWord operator.lexeme :=
  listed.isWord_of_mem (mem_keptKinds_of_precedence (by omega)) (by decide)

mutual

/-- The words of a legible expression can be told apart. -/
theorem Expr.proper_outline : (value : Expr) → value.Legible → value.outline.Proper
  | .literal _, plain => Constant.isWord_shown plain
  | .group inner, legible => ⟨proper_word (by decide), inner.proper_outline legible, trivial⟩
  | .unary _ operand, ⟨sign, listed, legible⟩ =>
      ⟨listed.isWord_of_mem sign (by decide), operand.proper_outline legible, trivial⟩
  | .binary left _ right, ⟨tight, listed, legible, legible'⟩ =>
      ⟨listed.isWord_of_precedence tight, left.proper_outline legible,
        right.proper_outline legible', trivial⟩
  | .logical left _ right, ⟨word, listed, legible, legible'⟩ =>
      ⟨listed.isWord_of_mem word (by decide), left.proper_outline legible,
        right.proper_outline legible', trivial⟩
  | .variable _ _, ⟨named, _⟩ => named.isWord
  | .assign _ value _, ⟨named, _, legible⟩ =>
      ⟨proper_word (by decide), named.isWord, value.proper_outline legible, trivial⟩
  | .call callee _ arguments, ⟨legible, legibleAll⟩ =>
      ⟨proper_word (by decide), callee.proper_outline legible,
        Expr.proper_outlineAll arguments legibleAll⟩

/-- The words of legible arguments can be told apart. -/
theorem Expr.proper_outlineAll : (values : List Expr) → Expr.LegibleAll values →
    Outline.ProperAll (Expr.outlineAll values)
  | [], _ => trivial
  | first :: others, ⟨legible, legibleAll⟩ =>
      ⟨first.proper_outline legible, Expr.proper_outlineAll others legibleAll⟩

end

lemma Expr.proper_outline? : (value : Option Expr) → Expr.Legible? value →
    Outline.ProperAll (Expr.outline? value)
  | none, _ => trivial
  | some value, legible => ⟨value.proper_outline legible, trivial⟩

lemma Token.proper_outlines : ∀ {names : List Token}, (∀ name ∈ names, name.IsNameToken) →
    Outline.ProperAll (names.map Token.outline)
  | [], _ => trivial
  | name :: _, named =>
      ⟨(named name List.mem_cons_self).isWord,
        Token.proper_outlines fun other mem => named other (List.mem_cons_of_mem name mem)⟩

mutual

/-- The words of a legible statement can be told apart. -/
theorem Stmt.proper_outline : (stmt : Stmt) → stmt.Legible → stmt.outline.Proper
  | .expression value, legible => ⟨proper_word (by decide), value.proper_outline legible, trivial⟩
  | .print value, legible => ⟨proper_word (by decide), value.proper_outline legible, trivial⟩
  | .variable _ initializer, ⟨named, legible⟩ =>
      ⟨proper_word (by decide), named.isWord, Expr.proper_outline? initializer legible⟩
  | .block body, legible => ⟨proper_word (by decide), Stmt.proper_outlineAll body legible⟩
  | .branch condition consequent alternative, ⟨tested, legible, legibleElse⟩ =>
      ⟨proper_word (by decide), condition.proper_outline tested, consequent.proper_outline legible,
        Stmt.proper_outlineElse alternative legibleElse⟩
  | .loop condition body, ⟨tested, legible⟩ =>
      ⟨proper_word (by decide), condition.proper_outline tested, body.proper_outline legible, trivial⟩
  | .function _ _ body, ⟨named, namedAll, legible⟩ =>
      ⟨proper_word (by decide), named.isWord, Token.proper_outlines namedAll,
        Stmt.proper_outlineAll body legible⟩
  | .return_ _ value, legible => ⟨proper_word (by decide), Expr.proper_outline? value legible⟩

/-- The words of legible statements can be told apart. -/
theorem Stmt.proper_outlineAll : (stmts : List Stmt) → Stmt.LegibleAll stmts →
    Outline.ProperAll (Stmt.outlineAll stmts)
  | [], _ => trivial
  | first :: others, ⟨legible, legibleAll⟩ =>
      ⟨first.proper_outline legible, Stmt.proper_outlineAll others legibleAll⟩

/-- The words of the other branch can be told apart. -/
theorem Stmt.proper_outlineElse : (stmt : Option Stmt) → Stmt.LegibleElse stmt →
    Outline.ProperAll (Stmt.outlineElse stmt)
  | none, _ => trivial
  | some alternative, legible => ⟨alternative.proper_outline legible, trivial⟩

end

/-- **Legible statements with the same text have the same outline.** -/
theorem Stmt.outline_eq_iff {stmt other : Stmt} (legible : stmt.Legible) (legible' : other.Legible) :
    stmt.shown = other.shown ↔ stmt.outline = other.outline := by
  rw [← String.toList_inj, stmt.toList_shown, other.toList_shown]
  exact ⟨Outline.eq_of_chars (stmt.proper_outline legible) (other.proper_outline legible'),
    congrArg chars⟩

end LoxLang
