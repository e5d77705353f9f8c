import LoxLang.Proofs.Grammar.Literals
import LoxLang.Proofs.Number.Renderers
import LoxLang.Program.Text
import LoxLang.Value
import Mathlib

/-!
# A number is shown the same wherever it is shown

What a program prints, what a list of tokens shows and what a tree shows are the digits of one number.
The tokens of a source never carry minus zero, so for them a finite value is all that is asked.

* `Lexeme.unsigned` — no lexeme stands for minus zero.
* `Number.text_token_eq_tree` — tokens and trees write every finite number but minus zero alike.
* **`Program.shown_numbers`** — the three places agree, and a list of tokens shows the literals that
  the tree of its source shows.
-/

namespace LoxLang

namespace Number

variable {x : Float}

/-- **Tokens and trees write every finite number but minus zero alike.** -/
lemma text_token_eq_tree (finite : x.isFinite) (signed : parts x ≠ .finite true 0) :
    text .token x = text .tree x := by
  by_cases whole : ∃ n : Int, toRat? x = some (n : ℚ)
  · obtain ⟨n, worth⟩ := whole
    obtain ⟨written, -⟩ := writtenAs_of_toRat? worth signed
    rw [written.token, written.tree]
  · obtain ⟨token, tree⟩ := text_of_fraction finite (not_exists.mp whole)
    rw [token, tree]

/-- What is read from digits is not minus zero. -/
lemma parts_ofPattern_ne {pattern : Nat} (bounded : pattern ≤ infinity) :
    parts (ofPattern false pattern) ≠ .finite true 0 := by
  intro found
  have bits := toBits_of_minus_zero found
  rcases bounded.lt_or_eq with finite | rfl
  · have small := lt_of_finite finite
    rw [toBits_ofPattern false finite, ← UInt64.toNat_inj,
      UInt64.toNat_ofNat_of_lt' (word_lt false small)] at bits
    exact absurd bits small.ne
  · exact absurd bits (by decide +kernel)

end Number

/-- **No lexeme stands for minus zero.** -/
lemma Lexeme.unsigned {text : List Char} {kind : Kind} {x : Float}
    (entry : Lexeme text kind (some (.number x))) : Number.parts x ≠ .finite true 0 := by
  cases entry with
  | whole _ nearest => exact Number.parts_ofPattern_ne nearest.bounded
  | fractional _ _ nearest => exact Number.parts_ofPattern_ne nearest.bounded

namespace Program

/-- The tokens of a source and the end mark are lexemes, where they have a literal. -/
lemma listed_of_literal {source : String} {token : Token} {literal : Literal}
    (mem : token ∈ Scan.tokens (Scan.items source)) (found : token.literal = some literal) :
    token.Listed := by
  obtain ⟨entries, last, scanned, listed⟩ :=
    (Scan.lexes_itemsFrom 1 source.toList).exists_entries
  have scanned : Scan.tokens (Scan.items source) = entries ++ [.endMark last] := scanned
  rw [scanned, List.mem_append, List.mem_singleton] at mem
  rcases mem with mem | rfl
  · exact listed token mem
  · cases found

/-- A literal of a source is shown by its token as a tree shows it. -/
lemma shownLiteral_eq {source : String} {token : Token} {literal : Literal}
    (mem : token ∈ Scan.tokens (Scan.items source)) (found : token.literal = some literal)
    (finite : ∀ x, literal = .number x → x.isFinite) :
    Token.shownLiteral token.literal = literal.constant.shown := by
  rw [found]
  cases literal with
  | text s => rfl
  | number x =>
    have entry : Lexeme token.lexeme.toList token.kind (some (.number x)) :=
      found ▸ listed_of_literal mem found
    exact Number.text_token_eq_tree (finite x rfl) entry.unsigned

/-- **A number is shown the same wherever it is shown.**

A finite number other than minus zero that is worth an integer is printed as the decimal digits of that
integer, whether these are taken from a 64-bit integer or from the number itself; a token and a tree
show the same with `.0` behind it.  Any other finite number has one text in the three places.  These
are the texts that the branches of each place come to, for every number there is.

A token with a finite number therefore shows the literal that a tree shows for it, and where a source
is read without problems, its tokens and its tree show the same literals, each as often. -/
theorem shown_numbers :
    (∀ x : Float, x.isFinite → x.toBits ≠ 0x8000000000000000 →
      (∀ n : Int, Number.toRat? x = some (n : ℚ) →
        (Value.number x).shown = toString n ∧
        (|n| < 10 ^ 15 → toString (Number.toWord x) = toString n) ∧
        Number.fixed 0 x = toString n ∧
        Token.shownLiteral (some (.number x)) = toString n ++ ".0" ∧
        (Constant.number x).shown = toString n ++ ".0") ∧
      ((∀ n : Int, Number.toRat? x ≠ some (n : ℚ)) →
        Token.shownLiteral (some (.number x)) = (Value.number x).shown ∧
        (Constant.number x).shown = (Value.number x).shown)) ∧
    (∀ x : Float, (Value.number x).shown = Number.printed x ∧
      Token.shownLiteral (some (.number x)) = Number.inToken x ∧
      (Constant.number x).shown = Number.inTree x) ∧
    (∀ (source : String) (token : Token) (x : Float), token ∈ Scan.tokens (Scan.items source) →
      token.literal = some (.number x) → x.isFinite →
        Constant.ofToken? token = some (.number x) ∧
        Token.shownLiteral token.literal = (Constant.number x).shown) ∧
    ∀ (source : String) (tree : List Stmt), read source = (tree, []) →
      (∀ token ∈ Scan.tokens (Scan.items source), ∀ x, token.literal = some (.number x) →
        x.isFinite) →
      ((Stmt.literalsAll tree).map fun literal => literal.constant.shown).Perm
        (((Scan.tokens (Scan.items source)).filterMap Token.literal).map fun literal =>
          Token.shownLiteral (some literal)) := by
  refine ⟨fun x finite signed => ⟨fun n worth => ?_, fun fraction => ?_⟩, fun x => ?_,
    fun source token x mem found finite => ⟨?_, ?_⟩, fun source tree accepted finite => ?_⟩
  · have unsigned : Number.parts x ≠ .finite true 0 := fun found =>
      signed (Number.toBits_of_minus_zero found)
    obtain ⟨written, short, digits, -⟩ := Number.writtenAs_of_toRat? worth unsigned
    exact ⟨written.printed, short, digits, written.token, written.tree⟩
  · exact Number.text_of_fraction finite fraction
  · exact ⟨Number.text_printed x, Number.text_token x, Number.text_tree x⟩
  · have listed := listed_of_literal mem found
    rcases listed.literal_eq with ⟨kind, -⟩ | ⟨-, s, text⟩ | ⟨-, none⟩
    · rw [Constant.ofToken?, kind, found]
    · rw [found] at text; cases text
    · rw [found] at none; cases none
  · refine shownLiteral_eq mem found fun y same => ?_
    cases same
    exact finite
  · refine ((literals_read accepted).map _).trans (.of_eq ?_)
    refine List.map_congr_left fun literal mem => ?_
    obtain ⟨token, mem, found⟩ := List.mem_filterMap.mp mem
    rw [← shownLiteral_eq mem found fun x same => finite token mem x (same ▸ found), found]

/-- The first whole number that is not taken from a 64-bit integer, and the last negative one that is;
a number with a fraction; and a program in which a tree shows what the tokens show. -/
theorem shown_numbers_limits :
    (Value.number (.ofBits 0x430C6BF526340000)).shown = "1000000000000000" ∧
    toString (Number.toWord (.ofBits 0xC30C6BF52633FFF8)) = "-999999999999999" ∧
    (Constant.number (.ofBits 0xC30C6BF52633FFF8)).shown = "-999999999999999.0" ∧
    Token.shownLiteral (some (.number (.ofBits 0x3FE0000000000000))) =
      (Value.number (.ofBits 0x3FE0000000000000)).shown ∧
    ((Stmt.literalsAll (read "print 1000000000000000 - 0.5;").1).map
      fun literal => literal.constant.shown).Perm ["1000000000000000.0", "0.5"] := by
  obtain ⟨one, -, -, all⟩ := shown_numbers
  have first := (one (.ofBits 0x430C6BF526340000) (by decide +kernel) (by decide +kernel)).1
    1000000000000000 (by decide +kernel)
  have last := (one (.ofBits 0xC30C6BF52633FFF8) (by decide +kernel) (by decide +kernel)).1
    (-999999999999999) (by decide +kernel)
  have half := (one (.ofBits 0x3FE0000000000000) (by decide +kernel) (by decide +kernel)).2
    fun n worth => by
      have value : Number.toRat? (.ofBits 0x3FE0000000000000) = some (1 / 2) := by decide +kernel
      rw [value, Option.some.injEq, div_eq_iff two_ne_zero] at worth
      have odd : (1 : Int) = n * 2 := by exact_mod_cast worth
      omega
  have finite : ∀ token ∈ Scan.tokens (Scan.items "print 1000000000000000 - 0.5;"),
      token.literal.all Literal.isFinite = true := by decide +kernel
  have texts : ((Scan.tokens (Scan.items "print 1000000000000000 - 0.5;")).filterMap
      Token.literal).map (fun literal => Token.shownLiteral (some literal)) =
        ["1000000000000000.0", "0.5"] := by decide +kernel
  have silent : (read "print 1000000000000000 - 0.5;").2 = [] := by decide +kernel
  have same := all _ _ (Prod.ext rfl silent) fun token mem =>
    Token.all_isFinite_iff.mp (finite token mem)
  rw [texts] at same
  exact ⟨first.1, last.2.1 (by decide), last.2.2.2.2, half.1, same⟩

end Program

end LoxLang
