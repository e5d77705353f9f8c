import LoxLang.Compilation
import LoxLang.Proofs.Grammar.Contents
import LoxLang.Proofs.Grammar.RoundTrip
import LoxLang.Proofs.Token.Lexing
import LoxLang.Proofs.Token.Spaced
import Mathlib

/-!
# The literals of a program

A number or a quoted text of the source stands in the tree as often as it stands in the source, with
the value that its token carries, and no other one stands there.  The condition that a `for` loop is
given when it has none is a word and no literal of this kind.

* `Expr.literals`, `Stmt.literals` — the numbers and quoted texts of a tree.
* `Stmt.literals_writtenAll` — they are those of the tokens of the tree.
* **`Program.exists_entries`** — what a program that is read without problems has of its source.
* **`Program.literals_read`** — the literals of a program that is read without problems are those of
  the tokens of its source.
-/

namespace LoxLang

/-- The literal that a number or a quoted text is given with. -/
def Token.literal? (token : Token) : Option Literal :=
  if token.kind ∈ [Kind.number, .string] then token.literal else none

/-- The literal that a constant has, if it is a number or a text. -/
def Constant.literal? : Constant → Option Literal
  | number x => some (.number x)
  | text s => some (.text s)
  | nil => none
  | bool _ => none

/-- The constant for a literal. -/
def Literal.constant : Literal → Constant
  | number x => .number x
  | text s => .text s

/-- Whether a literal is no infinite number. -/
def Literal.isFinite : Literal → Bool
  | number x => x.isFinite
  | text _ => true

/-- A token carries no infinite number. -/
lemma Token.all_isFinite_iff {token : Token} : token.literal.all Literal.isFinite = true ↔
    ∀ x, token.literal = some (.number x) → x.isFinite := by
  rcases token with ⟨_, _, _ | (x | s), _⟩ <;> simp [Literal.isFinite]

mutual

/-- The numbers and quoted texts of an expression, in the order of its parts. -/
def Expr.literals : Expr → List Literal
  | .literal value => value.literal?.toList
  | .group inner => inner.literals
  | .unary _ operand => operand.literals
  | .binary left _ right => left.literals ++ right.literals
  | .logical left _ right => left.literals ++ right.literals
  | .variable _ _ => []
  | .assign _ value _ => value.literals
  | .call callee _ arguments => callee.literals ++ Expr.literalsAll arguments

/-- The numbers and quoted texts of arguments. -/
def Expr.literalsAll : List Expr → List Literal
  | [] => []
  | first :: others => first.literals ++ Expr.literalsAll others

end

/-- The numbers and quoted texts of an expression that may be left out. -/
def Expr.literals? : Option Expr → List Literal
  | none => []
  | some value => value.literals

mutual

/-- The numbers and quoted texts of a statement. -/
def Stmt.literals : Stmt → List Literal
  | .expression value => value.literals
  | .print value => value.literals
  | .variable _ initializer => Expr.literals? initializer
  | .block body => Stmt.literalsAll body
  | .branch condition consequent alternative =>
    condition.literals ++ (consequent.literals ++ Stmt.literalsElse alternative)
  | .loop condition body => condition.literals ++ body.literals
  | .function _ _ body => Stmt.literalsAll body
  | .return_ _ value => Expr.literals? value

/-- The numbers and quoted texts of statements. -/
def Stmt.literalsAll : List Stmt → List Literal
  | [] => []
  | first :: others => first.literals ++ Stmt.literalsAll others

/-- The numbers and quoted texts of the other branch, if there is one. -/
def Stmt.literalsElse : Option Stmt → List Literal
  | none => []
  | some alternative => alternative.literals

end

/-! ## Literals and the tokens of a tree -/

/-- The literals that tokens are given with. -/
def Token.literals (tokens : List Token) : List Literal := tokens.filterMap Token.literal?

@[simp] lemma Token.literals_nil : Token.literals [] = [] := rfl

@[simp] lemma Token.literals_append (front back : List Token) :
    Token.literals (front ++ back) = Token.literals front ++ Token.literals back :=
  List.filterMap_append

/-- A token of another kind is given with no literal. -/
@[simp] lemma Token.literals_cons {token : Token} {rest : List Token}
    (other : token.kind ∉ [Kind.number, .string]) :
    Token.literals (token :: rest) = Token.literals rest :=
  List.filterMap_cons_none (if_neg other)

@[simp] lemma Token.literals_mark_cons {kind : Kind} {rest : List Token}
    (other : kind ∉ [Kind.number, .string]) :
    Token.literals (kind.mark :: rest) = Token.literals rest :=
  Token.literals_cons other

open Token (literals_nil literals_append literals_cons literals_mark_cons)

lemma Token.literals_literal (value : Constant) :
    Token.literals [value.written] = value.literal?.toList := by
  rcases value with _ | (_ | _) | _ | _ <;> rfl

/-- The operators of expressions are no literals. -/
lemma not_literal_of_precedence {kind : Kind} (some : kind.precedence ≠ 0) :
    kind ∉ [Kind.number, .string] := by
  rintro literal
  simp only [List.mem_cons, List.not_mem_nil, or_false] at literal
  rcases literal with rfl | rfl <;> exact some rfl

lemma not_literal_of_mem {kind : Kind} {kinds : List Kind} (mem : kind ∈ kinds)
    (others : ∀ kind ∈ kinds, kind ∉ [Kind.number, .string]) : kind ∉ [Kind.number, .string] :=
  others kind mem

mutual

/-- The literals of an expression are those of its tokens. -/
theorem Expr.literals_written : (value : Expr) → value.Shaped →
    Token.literals value.written = value.literals
  | .literal value, _ => Token.literals_literal value
  | .group inner, shaped => by
      have inside := inner.literals_written shaped
      simp +decide only [written, literals, literals_mark_cons, literals_append, inside, literals_nil,
        List.append_nil]
  | .unary operator operand, ⟨sign, _, shaped⟩ => by
      rw [written, literals, literals_cons (not_literal_of_mem sign (by decide)),
        operand.literals_written shaped]
  | .binary left operator right, ⟨tight, _, _, shapedLeft, shapedRight⟩ => by
      rw [written, literals, literals_append, literals_cons (not_literal_of_precedence (by omega)),
        left.literals_written shapedLeft, right.literals_written shapedRight]
  | .logical left operator right, ⟨word, _, _, shapedLeft, shapedRight⟩ => by
      rw [written, literals, literals_append, literals_cons (not_literal_of_mem word (by decide)),
        left.literals_written shapedLeft, right.literals_written shapedRight]
  | .variable name _, ⟨named, _⟩ => literals_cons (by rw [named]; decide)
  | .assign name value _, ⟨named, _, shaped⟩ => by
      rw [written, literals, literals_cons (by rw [named]; decide), literals_mark_cons (by decide),
        value.literals_written shaped]
  | .call callee paren arguments, ⟨_, shaped, closing, _, shapedAll⟩ => by
      rw [written, literals, literals_append, literals_mark_cons (by decide), literals_append,
        literals_cons (by rw [closing]; decide), literals_nil, List.append_nil,
        callee.literals_written shaped, Expr.literals_writtenAll arguments shapedAll]

/-- The literals of arguments are those of their tokens. -/
theorem Expr.literals_writtenAll : (values : List Expr) → Expr.ShapedAll values →
    Token.literals (Expr.writtenAll values) = Expr.literalsAll values
  | [], _ => rfl
  | first :: others, ⟨shaped, shapedAll⟩ => by
      rw [writtenAll, literalsAll, literals_append, first.literals_written shaped,
        Expr.literals_writtenMore others shapedAll]

/-- The literals of further arguments are those of their tokens. -/
theorem Expr.literals_writtenMore : (values : List Expr) → Expr.ShapedAll values →
    Token.literals (Expr.writtenMore values) = Expr.literalsAll values
  | [], _ => rfl
  | next :: others, ⟨shaped, shapedAll⟩ => by
      rw [writtenMore, literalsAll, literals_mark_cons (by decide), literals_append,
        next.literals_written shaped, Expr.literals_writtenMore others shapedAll]

end

lemma Expr.literals_written? : (value : Option Expr) → Expr.Shaped? value →
    Token.literals (Expr.written? value) = Expr.literals? value
  | none, _ => rfl
  | some value, shaped => value.literals_written shaped

lemma Expr.literals_writtenInitializer : (value : Option Expr) → Expr.Shaped? value →
    Token.literals (Expr.writtenInitializer value) = Expr.literals? value
  | none, _ => rfl
  | some value, shaped => by
      rw [writtenInitializer, literals_mark_cons (by decide), value.literals_written shaped, literals?]

/-- Names with commas between them are given with no literals. -/
lemma Token.literals_names : ∀ {names : List Token}, (∀ name ∈ names, name.kind = .identifier) →
    Token.literals (names.intersperse Kind.comma.mark) = []
  | [], _ => rfl
  | [name], named => literals_cons (by rw [named name (by simp)]; decide)
  | name :: next :: others, named => by
      have behind := Token.literals_names fun other mem => named other (List.mem_cons_of_mem name mem)
      rw [List.intersperse_cons_cons, literals_cons (by rw [named name (by simp)]; decide),
        literals_mark_cons (by decide), behind]

mutual

/-- The literals of a statement are those of its tokens. -/
theorem Stmt.literals_written : (stmt : Stmt) → stmt.Shaped →
    Token.literals stmt.written = stmt.literals
  | .expression value, shaped => by
      simp +decide only [written, literals, literals_append, literals_mark_cons, literals_nil,
        value.literals_written shaped, List.append_nil]
  | .print value, shaped => by
      simp +decide only [written, literals, literals_append, literals_mark_cons, literals_nil,
        value.literals_written shaped, List.append_nil]
  | .variable name initializer, ⟨named, shaped⟩ => by
      rw [written, literals, literals_mark_cons (by decide), literals_cons (by rw [named]; decide),
        literals_append, Expr.literals_writtenInitializer initializer shaped,
        literals_mark_cons (by decide), literals_nil, List.append_nil]
  | .block body, shaped => by
      simp +decide only [written, literals, literals_append, literals_mark_cons, literals_nil,
        Stmt.literals_writtenAll body shaped, List.append_nil]
  | .branch condition consequent alternative, ⟨tested, _, shaped, _, shapedElse⟩ => by
      simp +decide only [written, literals, literals_append, literals_mark_cons,
        condition.literals_written tested, consequent.literals_written shaped,
        Stmt.literals_writtenElse alternative shapedElse]
  | .loop condition body, ⟨tested, _, shaped⟩ => by
      simp +decide only [written, literals, literals_append, literals_mark_cons,
        condition.literals_written tested, body.literals_written shaped]
  | .function name parameters body, ⟨named, namedAll, _, shaped⟩ => by
      rw [written, literals, literals_mark_cons (by decide), literals_cons (by rw [named]; decide)]
      simp +decide only [literals_append, literals_mark_cons, literals_nil,
        Token.literals_names namedAll, Stmt.literals_writtenAll body shaped, List.append_nil,
        List.nil_append]
  | .return_ keyword value, ⟨word, shaped⟩ => by
      rw [written, literals, literals_cons (by rw [word]; decide), literals_append,
        Expr.literals_written? value shaped, literals_mark_cons (by decide), literals_nil,
        List.append_nil]

/-- The literals of statements are those of their tokens. -/
theorem Stmt.literals_writtenAll : (stmts : List Stmt) → Stmt.ShapedAll stmts →
    Token.literals (Stmt.writtenAll stmts) = Stmt.literalsAll stmts
  | [], _ => rfl
  | first :: others, ⟨shaped, shapedAll⟩ => by
      rw [writtenAll, literalsAll, literals_append, first.literals_written shaped,
        Stmt.literals_writtenAll others shapedAll]

/-- The literals of the other branch are those of its tokens. -/
theorem Stmt.literals_writtenElse : (stmt : Option Stmt) → Stmt.ShapedElse stmt →
    Token.literals (Stmt.writtenElse stmt) = Stmt.literalsElse stmt
  | none, _ => rfl
  | some alternative, ⟨_, shaped⟩ => by
      rw [writtenElse, literalsElse, literals_mark_cons (by decide),
        alternative.literals_written shaped]

end

/-! ## Literals and the tokens of a source -/

/-- What a tree keeps of a token includes its literal. -/
lemma literal?_plain (token : Token) : token.plain.literal? = token.literal? := by
  unfold Token.plain
  split
  · rfl
  · split
    · next literal => rw [Token.literal?, Token.literal?, if_pos literal]
    · next other => rw [Token.literal?, Token.literal?, Kind.mark_kind, if_neg other, if_neg other]

/-- The literals of tokens are among what the tokens hold. -/
lemma Token.literals_eq_held (tokens : List Token) :
    Token.literals tokens =
      Token.literals ((tokens.map Token.plain).filter (·.kind ∈ heldKinds)) := by
  rw [Token.literals, Token.literals, List.filterMap_filter, List.filterMap_map]
  refine List.filterMap_congr fun token _ => ?_
  rw [Function.comp_apply, literal?_plain]
  split
  · rfl
  · next formal =>
    refine if_neg fun literal => formal ?_
    simp only [Token.plain_kind, decide_eq_true_eq, heldKinds, List.mem_cons] at literal ⊢
    exact literal.elim .inl fun text => .inr (.inl (text.resolve_right List.not_mem_nil))

/-- Tokens that hold the same are given with the same literals. -/
lemma Token.literals_perm {left right : List Token} (same : held left = held right) :
    (Token.literals left).Perm (Token.literals right) := by
  rw [Token.literals_eq_held left, Token.literals_eq_held right]
  exact (Multiset.coe_eq_coe.mp same).filterMap _

/-! ## The tokens of a source -/

/-- An entry of the table of lexemes carries what its kind asks for, and nothing else. -/
lemma Lexeme.literal_eq {text : List Char} {kind : Kind} {literal : Option Literal}
    (entry : Lexeme text kind literal) :
    (kind = .number ∧ ∃ x, literal = some (.number x)) ∨
      (kind = .string ∧ ∃ s, literal = some (.text s)) ∨
      (kind ∉ [Kind.number, .string] ∧ literal = none) := by
  have table : ∀ kind ∈ Kind.symbols, kind ∉ [Kind.number, .string] := by decide
  cases entry with
  | symbol listed _ => exact .inr (.inr ⟨table _ listed, rfl⟩)
  | whole => exact .inl ⟨rfl, _, rfl⟩
  | fractional => exact .inl ⟨rfl, _, rfl⟩
  | keyword word => exact .inr (.inr ⟨by simp, rfl⟩)
  | name => exact .inr (.inr ⟨by simp, rfl⟩)
  | string => exact .inr (.inl ⟨rfl, _, rfl⟩)

/-- A token that the table of lexemes lists. -/
def Token.Listed (token : Token) : Prop := Lexeme token.lexeme.toList token.kind token.literal

lemma Token.Listed.carries {token : Token} (listed : token.Listed) : token.Carries := by
  rcases listed.literal_eq with ⟨kind, literal⟩ | ⟨kind, literal⟩ | ⟨kind, literal⟩
  · exact ⟨fun _ => literal, fun string => absurd (kind.symm.trans string) (by decide)⟩
  · exact ⟨fun number => absurd (kind.symm.trans number) (by decide), fun _ => literal⟩
  · refine ⟨fun number => absurd ?_ kind, fun string => absurd ?_ kind⟩
    · simp [number]
    · simp [string]

/-- Only numbers and quoted texts have a literal. -/
lemma Token.Listed.literal? {token : Token} (listed : token.Listed) :
    token.literal? = token.literal := by
  rcases listed.literal_eq with ⟨kind, -⟩ | ⟨kind, -⟩ | ⟨-, literal⟩
  · exact if_pos (by simp [kind])
  · exact if_pos (by simp [kind])
  · rw [Token.literal?, literal, ite_self]

namespace Program

/-- **The tokens of a source that is read without problems**: lexemes of the table that hold what the
program holds, and the end mark.  The program is shaped. -/
theorem exists_entries {source : String} {tree : List Stmt}
    (accepted : Program.read source = (tree, [])) :
    ∃ entries last, Scan.tokens (Scan.items source) = entries ++ [.endMark last] ∧
      (∀ token ∈ entries, token.Listed) ∧ Stmt.ShapedAll tree ∧
      held (Stmt.writtenAll tree) = held entries := by
  obtain ⟨entries, last, scanned, listed⟩ :=
    (Scan.lexes_itemsFrom 1 source.toList).exists_entries
  have scanned : Scan.tokens (Scan.items source) = entries ++ [.endMark last] := scanned
  have listed : ∀ token ∈ entries, token.Listed := listed
  have inner : beforeEnd (entries ++ [.endMark last]) = entries :=
    beforeEnd_append (fun token mem => (Lexeme.proper (listed token mem)).1) rfl
  obtain ⟨rfl, silent⟩ := Prod.mk.inj accepted
  have silent : (parse (Scan.tokens (Scan.items source))).reports = [] :=
    List.map_eq_nil_iff.mp (List.append_eq_nil_iff.mp silent).2
  have reads := reads_of_silent silent
  rw [scanned, inner, ← scanned] at reads
  have holds := reads.held rfl fun token mem => (listed token mem).carries
  rw [held_nil, add_zero] at holds
  exact ⟨entries, last, scanned, listed, reads.shaped rfl, holds.symm⟩

/-- **The literals of a program are those of its source.** -/
theorem literals_read {source : String} {tree : List Stmt}
    (accepted : Program.read source = (tree, [])) :
    (Stmt.literalsAll tree).Perm
      ((Scan.tokens (Scan.items source)).filterMap Token.literal) := by
  obtain ⟨entries, last, scanned, listed, shaped, same⟩ := exists_entries accepted
  have given : (entries ++ [Token.endMark last]).filterMap Token.literal = Token.literals entries := by
    rw [List.filterMap_append, Token.literals]
    exact (List.append_nil _).trans
      (List.filterMap_congr fun token mem => (listed token mem).literal?.symm)
  rw [scanned, given, ← Stmt.literals_writtenAll tree shaped]
  exact Token.literals_perm same

end Program

end LoxLang
