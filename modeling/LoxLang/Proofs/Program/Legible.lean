import LoxLang.Proofs.Grammar.Literals
import LoxLang.Proofs.Number.Comparison
import LoxLang.Proofs.Number.Renderers
import LoxLang.Proofs.Program.Outline
import LoxLang.Program.Text
import LoxLang.Value
import Mathlib

/-!
# Trees that can be read off their texts

A quoted text may look like anything, and the infinities have one name each for many ways to write
them.  Where a source has neither, each word of the text of its tree is a lexeme of the language, the
one for a number with the value of that number; and a lexeme has one kind and one literal.

* `Constant.Plain` — a constant with a text of its own; `Constant.lexeme` — that text is a lexeme.
* `Expr.Legible`, `Stmt.Legible` — shaped trees of listed tokens with plain constants.
* `Expr.legible_of_written`, `Stmt.legible_of_written` — shaped trees of readable tokens are legible.
* **`Program.legible_read`** — the tree of a source without quoted texts and infinite numbers is.
-/

namespace LoxLang

/-! ## Constants -/

namespace Number

variable {pattern : Nat}

lemma parts_ofPattern (finite : pattern < infinity) :
    parts (ofPattern false pattern) = .finite false pattern := by
  have small := lt_of_finite finite
  have bits : (ofPattern false pattern).toBits.toNat = pattern := by
    rw [toBits_ofPattern false finite, UInt64.toNat_ofNat_of_lt' (word_lt false small)]
    rfl
  have positive : ¬2 ^ 63 ≤ pattern := by omega
  simp only [parts, bits, Nat.pow_eq, Nat.mod_eq_of_lt small, finite, if_true, decide_eq_false positive]

/-- Digits that read as the number of a pattern are a lexeme for that number. -/
lemma Numeral.lexeme {chars : List Char} (numeral : Numeral pattern chars) :
    Lexeme chars .number (some (.number (ofPattern false pattern))) := by
  cases numeral with
  | whole run reads =>
    rw [← reads]
    exact .whole run (isNearest_ofDigits _ [])
  | fractional run behind reads =>
    rw [← reads]
    exact .fractional run behind (isNearest_ofDigits _ _)

/-- The text of a number without a sign in a tree is a numeral for it. -/
lemma numeral_tree (finite : pattern < infinity) :
    Numeral pattern (text .tree (ofPattern false pattern)).toList := by
  have found := parts_ofPattern finite
  by_cases whole : isWhole pattern = true
  · have shape : (text .tree (ofPattern false pattern)).toList =
        Nat.toDigits 10 (wholePart pattern) ++ ['.', '0'] := by
      simp only [text, found, whole, if_true, Bool.false_and, minusIf, Style.tree,
        Bool.false_eq_true, if_false, String.empty_append, String.toList_append, Nat.toList_repr]
      rfl
    have value : Nat.ofDigitChars 10 (Nat.toDigits 10 (wholePart pattern) ++ ['0']) 0 =
        wholePart pattern * 10 := by
      rw [Nat.ofDigitChars_append, Nat.ofDigitChars_ten_toDigits, Nat.mul_comm]
      rfl
    rw [shape]
    refine .fractional (isDigits_toDigits _) ⟨by simp, by simp⟩ ?_
    have exactly : wholePart pattern * 10 * unitsPerOne = units pattern * 10 := by
      rw [units_of_isWhole whole]
      ring
    rw [ofDigits, value, List.length_singleton, Nat.pow_eq, pow_one,
      nearest_eq_self finite.le (by norm_num) exactly]
  · obtain ⟨numeral, printed, reads⟩ := text_numeral found finite.le
    have same : text .tree (ofPattern false pattern) = text .printed (ofPattern false pattern) := by
      simp only [text, found, whole, Bool.false_eq_true, if_false,
        shortest_positional finite.le whole]
    rw [same, printed, minusIf]
    simpa using reads

end Number

/-- A constant that is no quoted text, and if it is a number, one that a source can write. -/
def Constant.Plain : Constant → Prop
  | number x => ∃ pattern < Number.infinity, x = Number.ofPattern false pattern
  | text _ => False
  | nil => True
  | bool _ => True

namespace Constant

variable {value other : Constant}

/-- **The text of a plain constant is a lexeme**, that of the constant. -/
lemma lexeme (plain : value.Plain) :
    Lexeme value.shown.toList value.written.kind value.written.literal := by
  rcases value with _ | (_ | _) | x | s
  · exact .keyword .nil
  · exact .keyword .false_
  · exact .keyword .true_
  · obtain ⟨pattern, finite, rfl⟩ := plain
    exact (Number.numeral_tree finite).lexeme
  · exact plain.elim

/-- A constant is told by its kind and its literal. -/
lemma eq_of_written (kind : value.written.kind = other.written.kind)
    (literal : value.written.literal = other.written.literal) : value = other := by
  have told : Constant.ofToken? value.written = Constant.ofToken? other.written := by
    rw [ofToken?, ofToken?, kind, literal]
  rw [ofToken?_written, ofToken?_written] at told
  exact Option.some.inj told

/-- Plain constants with the same text are the same. -/
lemma eq_of_shown (plain : value.Plain) (plain' : other.Plain) (same : value.shown = other.shown) :
    value = other := by
  obtain ⟨kind, literal⟩ := (lexeme plain).functional (same ▸ lexeme plain')
  exact eq_of_written kind literal

/-- A plain constant is equal to itself only. -/
lemma equals_iff (plain : value.Plain) (plain' : other.Plain) :
    value.value.equals other.value = true ↔ value = other := by
  cases value with
  | text _ => exact plain.elim
  | number x =>
    obtain ⟨pattern, finite, rfl⟩ := plain
    cases other with
    | number y =>
      obtain ⟨pattern', finite', rfl⟩ := plain'
      change (Number.ofPattern false pattern == Number.ofPattern false pattern') = true ↔ _
      rw [Number.beq_ofPattern finite finite', decide_eq_true_iff]
      constructor
      · rintro rfl
        rfl
      · intro same
        have parts := congrArg Number.parts (number.inj same)
        rw [Number.parts_ofPattern finite, Number.parts_ofPattern finite'] at parts
        exact (Number.Parts.finite.inj parts).2
    | _ => simp [Constant.value, Value.equals]
  | nil => cases other <;> simp [Constant.value, Value.equals]
  | bool b => cases other <;> simp [Constant.value, Value.equals]

/-- The text of a plain constant is no name. -/
lemma shown_ne_name {name : Token} (plain : value.Plain) (kind : name.kind = .identifier)
    (listed : name.Listed) : value.shown ≠ name.lexeme := by
  intro same
  have entry := lexeme plain
  rw [same] at entry
  have told := (entry.functional listed).1
  rw [kind] at told
  rcases value with _ | (_ | _) | _ | _ <;> cases told

end Constant

/-- Listed tokens with the same text differ in their lines only. -/
lemma Token.Listed.lineless_eq {token other : Token} (listed : token.Listed) (listed' : other.Listed)
    (same : token.lexeme = other.lexeme) : token.lineless = other.lineless := by
  have entry : Lexeme token.lexeme.toList other.kind other.literal := by
    rw [same]
    exact listed'
  obtain ⟨kind, literal⟩ := listed.functional entry
  simp only [Token.lineless, kind, literal, same]

/-! ## Legible trees -/

/-- A name of a source. -/
def Token.IsNameToken (token : Token) : Prop := token.kind = .identifier ∧ token.Listed

mutual

/-- An expression that can be read off its text. -/
def Expr.Legible : Expr → Prop
  | .literal value => value.Plain
  | .group inner => inner.Legible
  | .unary operator operand =>
    operator.kind ∈ [Kind.bang, .minus] ∧ operator.Listed ∧ operand.Legible
  | .binary left operator right =>
    3 ≤ operator.kind.precedence ∧ operator.Listed ∧ left.Legible ∧ right.Legible
  | .logical left operator right =>
    operator.kind ∈ [Kind.keyword .or, .keyword .and] ∧ operator.Listed ∧ left.Legible ∧ right.Legible
  | .variable name hops => name.IsNameToken ∧ hops = none
  | .assign name value hops => name.IsNameToken ∧ hops = none ∧ value.Legible
  | .call callee _ arguments => callee.Legible ∧ Expr.LegibleAll arguments

/-- Expressions that can be read off their texts. -/
def Expr.LegibleAll : List Expr → Prop
  | [] => True
  | first :: others => first.Legible ∧ Expr.LegibleAll others

end

/-- An expression that can be read off its text, or none. -/
def Expr.Legible? : Option Expr → Prop
  | none => True
  | some value => value.Legible

mutual

/-- A statement that can be read off its text. -/
def Stmt.Legible : Stmt → Prop
  | .expression value => value.Legible
  | .print value => value.Legible
  | .variable name initializer => name.IsNameToken ∧ Expr.Legible? initializer
  | .block body => Stmt.LegibleAll body
  | .branch condition consequent alternative =>
    condition.Legible ∧ consequent.Legible ∧ Stmt.LegibleElse alternative
  | .loop condition body => condition.Legible ∧ body.Legible
  | .function name parameters body =>
    name.IsNameToken ∧ (∀ parameter ∈ parameters, parameter.IsNameToken) ∧ Stmt.LegibleAll body
  | .return_ _ value => Expr.Legible? value

/-- Statements that can be read off their texts. -/
def Stmt.LegibleAll : List Stmt → Prop
  | [] => True
  | first :: others => first.Legible ∧ Stmt.LegibleAll others

/-- The other branch, if there is one, can be read off its text. -/
def Stmt.LegibleElse : Option Stmt → Prop
  | none => True
  | some alternative => alternative.Legible

end

/-! ## Tokens that make legible trees -/

/-- A token that is listed if a tree keeps it, no quoted text, and no infinite number. -/
structure Token.Readable (token : Token) : Prop where
  listed : token.kind ∈ keptKinds → token.Listed
  unquoted : token.kind ≠ .string
  finite : token.kind = .number →
    ∃ pattern < Number.infinity, token.literal = some (.number (Number.ofPattern false pattern))

/-- Tokens all of which are readable. -/
def AllReadable (tokens : List Token) : Prop := ∀ token ∈ tokens, token.Readable

namespace AllReadable

variable {front back : List Token}

lemma left (all : AllReadable (front ++ back)) : AllReadable front :=
  fun token mem => all token (List.mem_append_left back mem)

lemma right (all : AllReadable (front ++ back)) : AllReadable back :=
  fun token mem => all token (List.mem_append_right front mem)

lemma head {token : Token} (all : AllReadable (token :: back)) : token.Readable :=
  all token List.mem_cons_self

lemma tail {token : Token} (all : AllReadable (token :: back)) : AllReadable back :=
  fun other mem => all other (List.mem_cons_of_mem token mem)

end AllReadable

lemma Token.Readable.name {token : Token} (readable : token.Readable)
    (kind : token.kind = .identifier) : token.IsNameToken :=
  ⟨kind, readable.listed (by rw [kind]; decide)⟩

/-- The operators of the rows are kept. -/
lemma mem_keptKinds_of_precedence {kind : Kind} (positive : kind.precedence ≠ 0) :
    kind ∈ keptKinds := by
  revert positive
  cases kind with
  | keyword word => cases word <;> decide
  | _ => decide

lemma mem_keptKinds_of_unary {kind : Kind} (sign : kind ∈ [Kind.bang, .minus]) : kind ∈ keptKinds :=
  (by decide : ∀ kind ∈ [Kind.bang, .minus], kind ∈ keptKinds) kind sign

lemma mem_keptKinds_of_logical {kind : Kind} (word : kind ∈ [Kind.keyword .or, .keyword .and]) :
    kind ∈ keptKinds :=
  (by decide : ∀ kind ∈ [Kind.keyword .or, .keyword .and], kind ∈ keptKinds) kind word

lemma Constant.plain_of_readable {value : Constant} (readable : value.written.Readable) :
    value.Plain := by
  cases value with
  | nil => trivial
  | bool b => trivial
  | text s => exact readable.unquoted rfl
  | number x =>
    obtain ⟨pattern, finite, found⟩ := readable.finite rfl
    exact ⟨pattern, finite, Literal.number.inj (Option.some.inj found)⟩

mutual

/-- A shaped expression of readable tokens is legible. -/
theorem Expr.legible_of_written : (value : Expr) → value.Shaped → AllReadable value.written →
    value.Legible
  | .literal _, _, all => Constant.plain_of_readable all.head
  | .group inner, shaped, all => inner.legible_of_written shaped all.tail.left
  | .unary operator operand, ⟨sign, _, shaped⟩, all =>
      ⟨sign, all.head.listed (mem_keptKinds_of_unary sign),
        operand.legible_of_written shaped all.tail⟩
  | .binary left operator right, ⟨tight, _, _, shaped, shaped'⟩, all =>
      ⟨tight, all.right.head.listed (mem_keptKinds_of_precedence (by omega)),
        left.legible_of_written shaped all.left, right.legible_of_written shaped' all.right.tail⟩
  | .logical left operator right, ⟨word, _, _, shaped, shaped'⟩, all =>
      ⟨word, all.right.head.listed (mem_keptKinds_of_logical word),
        left.legible_of_written shaped all.left, right.legible_of_written shaped' all.right.tail⟩
  | .variable _ _, ⟨kind, hops⟩, all => ⟨all.head.name kind, hops⟩
  | .assign _ value _, ⟨kind, hops, shaped⟩, all =>
      ⟨all.head.name kind, hops, value.legible_of_written shaped all.tail.tail⟩
  | .call callee _ arguments, ⟨_, shaped, _, _, shapedAll⟩, all =>
      ⟨callee.legible_of_written shaped all.left,
        Expr.legibleAll_of_written arguments shapedAll all.right.tail.left⟩

/-- Shaped arguments of readable tokens are legible. -/
theorem Expr.legibleAll_of_written : (values : List Expr) → Expr.ShapedAll values →
    AllReadable (Expr.writtenAll values) → Expr.LegibleAll values
  | [], _, _ => trivial
  | first :: others, ⟨shaped, shapedAll⟩, all =>
      ⟨first.legible_of_written shaped all.left,
        Expr.legibleAll_of_writtenMore others shapedAll all.right⟩

/-- Further shaped arguments of readable tokens are legible. -/
theorem Expr.legibleAll_of_writtenMore : (values : List Expr) → Expr.ShapedAll values →
    AllReadable (Expr.writtenMore values) → Expr.LegibleAll values
  | [], _, _ => trivial
  | next :: others, ⟨shaped, shapedAll⟩, all =>
      ⟨next.legible_of_written shaped all.tail.left,
        Expr.legibleAll_of_writtenMore others shapedAll all.tail.right⟩

end

lemma Expr.legible?_of_written : (value : Option Expr) → Expr.Shaped? value →
    AllReadable (Expr.written? value) → Expr.Legible? value
  | none, _, _ => trivial
  | some value, shaped, all => value.legible_of_written shaped all

lemma Expr.legible?_of_writtenInitializer : (value : Option Expr) → Expr.Shaped? value →
    AllReadable (Expr.writtenInitializer value) → Expr.Legible? value
  | none, _, _ => trivial
  | some value, shaped, all => value.legible_of_written shaped all.tail

lemma mem_intersperse {α : Type} {separator element : α} : ∀ {elements : List α},
    element ∈ elements → element ∈ elements.intersperse separator
  | [_], mem => mem
  | first :: next :: others, mem => by
      rw [List.intersperse_cons_cons]
      rcases List.mem_cons.mp mem with rfl | mem
      · exact List.mem_cons_self
      · exact List.mem_cons_of_mem _ (List.mem_cons_of_mem _ (mem_intersperse mem))

mutual

/-- A shaped statement of readable tokens is legible. -/
theorem Stmt.legible_of_written : (stmt : Stmt) → stmt.Shaped → AllReadable stmt.written →
    stmt.Legible
  | .expression value, shaped, all => value.legible_of_written shaped all.left
  | .print value, shaped, all => value.legible_of_written shaped all.tail.left
  | .variable _ initializer, ⟨kind, shaped⟩, all =>
      ⟨all.tail.head.name kind,
        Expr.legible?_of_writtenInitializer initializer shaped all.tail.tail.left⟩
  | .block body, shaped, all => Stmt.legibleAll_of_written body shaped all.tail.left
  | .branch condition consequent alternative, ⟨tested, _, shaped, _, shapedElse⟩, all =>
      ⟨condition.legible_of_written tested all.tail.tail.left,
        consequent.legible_of_written shaped all.tail.tail.right.tail.left,
        Stmt.legibleElse_of_written alternative shapedElse all.tail.tail.right.tail.right⟩
  | .loop condition body, ⟨tested, _, shaped⟩, all =>
      ⟨condition.legible_of_written tested all.tail.tail.left,
        body.legible_of_written shaped all.tail.tail.right.tail⟩
  | .function _ _ body, ⟨kind, kinds, _, shaped⟩, all =>
      ⟨all.tail.head.name kind,
        fun parameter mem => (all.tail.tail.tail.left parameter (mem_intersperse mem)).name
          (kinds parameter mem),
        Stmt.legibleAll_of_written body shaped all.tail.tail.tail.right.tail.tail.left⟩
  | .return_ _ value, ⟨_, shaped⟩, all => Expr.legible?_of_written value shaped all.tail.left

/-- Shaped statements of readable tokens are legible. -/
theorem Stmt.legibleAll_of_written : (stmts : List Stmt) → Stmt.ShapedAll stmts →
    AllReadable (Stmt.writtenAll stmts) → Stmt.LegibleAll stmts
  | [], _, _ => trivial
  | first :: others, ⟨shaped, shapedAll⟩, all =>
      ⟨first.legible_of_written shaped all.left,
        Stmt.legibleAll_of_written others shapedAll all.right⟩

/-- The other branch, if it is shaped and of readable tokens, is legible. -/
theorem Stmt.legibleElse_of_written : (stmt : Option Stmt) → Stmt.ShapedElse stmt →
    AllReadable (Stmt.writtenElse stmt) → Stmt.LegibleElse stmt
  | none, _, _ => trivial
  | some alternative, ⟨_, shaped⟩, all => alternative.legible_of_written shaped all.tail

end

/-! ## Sources of legible trees -/

namespace Program

/-- The number of a lexeme that is finite has a pattern below the infinity. -/
lemma finite_of_lexeme {text : List Char} {kind : Kind} {x : Float}
    (entry : Lexeme text kind (some (.number x))) (finite : x.isFinite) :
    ∃ pattern < Number.infinity, x = Number.ofPattern false pattern := by
  have unbounded : (Number.ofPattern false Number.infinity).isFinite = false := by decide +kernel
  have read {pattern : Nat} (bounded : pattern ≤ Number.infinity)
      (finite : (Number.ofPattern false pattern).isFinite) : pattern < Number.infinity :=
    bounded.lt_of_ne fun same => by rw [same, unbounded] at finite; cases finite
  cases entry with
  | whole _ nearest => exact ⟨_, read nearest.bounded finite, rfl⟩
  | fractional _ _ nearest => exact ⟨_, read nearest.bounded finite, rfl⟩

/-- No token of a source is a quoted text, and no number is infinite. -/
def HasPlainLiterals (source : String) : Prop :=
  ∀ token ∈ Scan.tokens (Scan.items source),
    token.kind ≠ .string ∧ ∀ x, token.literal = some (.number x) → x.isFinite

instance (source : String) : Decidable (HasPlainLiterals source) :=
  decidable_of_iff (∀ token ∈ Scan.tokens (Scan.items source),
      token.kind ≠ .string ∧ token.literal.all Literal.isFinite = true)
    (forall₂_congr fun _ _ => and_congr_right fun _ => Token.all_isFinite_iff)

/-- **The tree of a source with plain literals is legible.** -/
theorem legible_read {source : String} {tree : List Stmt}
    (accepted : Program.read source = (tree, [])) (plain : HasPlainLiterals source) :
    Stmt.LegibleAll tree := by
  obtain ⟨entries, last, scanned, listed, shaped, same⟩ := exists_entries accepted
  have plain : ∀ token ∈ entries,
      token.kind ≠ .string ∧ ∀ x, token.literal = some (.number x) → x.isFinite :=
    fun token mem => plain token (by rw [scanned]; exact List.mem_append_left _ mem)
  refine Stmt.legibleAll_of_written tree shaped fun token mem => ?_
  -- what the tree keeps of a token comes from a token of the source
  have source {token : Token} (mem : token ∈ Stmt.writtenAll tree) (kind : token.kind ∈ heldKinds) :
      ∃ entry ∈ entries, entry.plain = token.plain := by
    obtain ⟨entry, mem, alike, -⟩ := exists_of_mem_held (same ▸ mem_held mem kind)
    exact ⟨entry, mem, alike⟩
  refine ⟨fun kept => ?_, fun quoted => ?_, fun number => ?_⟩
  · obtain ⟨entry, taken, alike⟩ := source mem (by simp [heldKinds, kept])
    have kind : entry.kind = token.kind := by
      rw [← Token.plain_kind entry, alike, Token.plain_kind]
    rw [Token.plain, Token.plain, if_pos (kind ▸ kept), if_pos kept] at alike
    exact alike ▸ listed entry taken
  · obtain ⟨entry, taken, alike⟩ := source mem (by rw [quoted]; decide)
    refine (plain entry taken).1 ?_
    rw [← Token.plain_kind entry, alike, Token.plain_kind, quoted]
  · obtain ⟨entry, taken, alike⟩ := source mem (by rw [number]; decide)
    have kind : entry.kind = .number := by
      rw [← Token.plain_kind entry, alike, Token.plain_kind, number]
    have literal : token.literal = entry.literal := by
      have told := congrArg Token.literal? alike
      rw [literal?_plain, literal?_plain, Token.literal?, Token.literal?, if_pos (by simp [kind]),
        if_pos (by simp [number])] at told
      exact told.symm
    obtain ⟨x, found⟩ := (listed entry taken).carries.1 kind
    have entered : Lexeme entry.lexeme.toList entry.kind (some (.number x)) :=
      found ▸ listed entry taken
    obtain ⟨pattern, finite, rfl⟩ := finite_of_lexeme entered ((plain entry taken).2 x found)
    exact ⟨pattern, finite, literal.trans found⟩

end Program

end LoxLang
