import Mathlib
import LoxLang.Proofs.Token.Joined
import LoxLang.Proofs.Token.Partition

/-!
# Lexemes determine tokens

The lexemes of a source, written one behind the other with a blank between each two, are a source with
the same tokens.  A blank stops every lexeme, since only quoted texts contain blanks, and these end at
their second quote; and no lexeme turns into a comment, since a comment needs a second slash.  So
whatever else a source has between its lexemes has no part in its tokens.

* `Token.lineless` — a token without its line.
* `Lexeme.symbol_or_quoted` — a lexeme with a character that is not for names or numbers.
* `Lexeme.longest_spaced`, `Lexeme.not_remark` — a lexeme in front of a blank, or at the end.
* **`Lexeme.functional`** — a text has one kind and one literal.
* `Lexes.exists_entries` — the tokens of a text are lexemes of the table.
* `Scan.lexes_spaced` — the items of lexemes with blanks between them.
* **`Scan.tokens_spaced`** — the lexemes of a source have the tokens of the source.
-/

namespace LoxLang

/-- A token without its line. -/
def Token.lineless (token : Token) : Kind × String × Option Literal :=
  (token.kind, token.lexeme, token.literal)

/-! ## Lexemes in front of blanks -/

namespace Lexeme

variable {lexeme behind : List Char} {kind : Kind} {literal : Option Literal}

/-- A lexeme with a character that is neither for names nor for numbers is a symbol or a quoted text. -/
lemma symbol_or_quoted (entry : Lexeme lexeme kind literal) {c : Char} (mem : c ∈ lexeme)
    (unnamed : ¬IsNameChar c) (unpointed : c ≠ '.') :
    (∃ symbol ∈ Kind.symbols, ∃ text ∈ symbol.spelling?.toList, lexeme = text.toList) ∨
      ∃ body, lexeme = '"' :: body ++ ['"'] ∧ ∀ c ∈ body, c ≠ '"' := by
  have undigit : ∀ {run}, IsDigits run → c ∉ run := fun run mem =>
    unnamed (.inr (.inl (run.2 c mem)))
  cases entry with
  | @symbol kind text listed spelled =>
      exact .inl ⟨kind, listed, text, Option.mem_toList.mpr spelled, rfl⟩
  | whole run => exact absurd mem (undigit run)
  | fractional run later =>
      rcases List.mem_append.mp mem with mem | mem
      · exact absurd mem (undigit run)
      · rcases List.mem_cons.mp mem with point | mem
        · exact absurd point unpointed
        · exact absurd mem (undigit later)
  | keyword word => exact absurd ((isName_keyword word).1 c mem) unnamed
  | name run => exact absurd (run.1 c mem) unnamed
  | @string body inside => exact .inr ⟨body, rfl, inside⟩

/-- Only quoted texts contain blanks and quotes. -/
lemma exists_body (entry : Lexeme lexeme kind literal) {c : Char} (special : c = ' ' ∨ c = '"')
    (mem : c ∈ lexeme) : ∃ body, lexeme = '"' :: body ++ ['"'] ∧ ∀ c ∈ body, c ≠ '"' := by
  have table : ∀ symbol ∈ Kind.symbols, ∀ text ∈ symbol.spelling?.toList,
      ' ' ∉ text.toList ∧ '"' ∉ text.toList := by decide
  have odd : ¬IsNameChar c ∧ c ≠ '.' := by
    rcases special with rfl | rfl <;> simp [IsNameChar]
  rcases entry.symbol_or_quoted mem odd.1 odd.2 with ⟨symbol, listed, text, spelled, rfl⟩ | quoted
  · obtain ⟨blank, quote⟩ := table symbol listed text spelled
    rcases special with rfl | rfl
    · exact absurd mem blank
    · exact absurd mem quote
  · exact quoted

/-- The only lexeme that starts with a slash is the slash. -/
lemma eq_slash {more : List Char} (entry : Lexeme ('/' :: more) kind literal) : more = [] := by
  have table : ∀ symbol ∈ Kind.symbols, ∀ text ∈ symbol.spelling?.toList,
      text.toList.head? = some '/' → text.toList = ['/'] := by decide
  have odd : ¬IsNameChar '/' := by simp [IsNameChar]
  rcases entry.symbol_or_quoted List.mem_cons_self odd (by decide) with
    ⟨symbol, listed, text, spelled, same⟩ | ⟨body, same, -⟩
  · have alone := table symbol listed text spelled (by rw [← same]; rfl)
    exact (List.cons.inj (same.trans alone)).2
  · cases same

/-- **A lexeme in front of a blank, or at the end, is the longest there.** -/
theorem longest_spaced (entry : Lexeme lexeme kind literal)
    (stops : behind = [] ∨ behind.head? = some ' ') :
    Longest (lexeme ++ behind) lexeme kind literal behind := by
  refine ⟨entry, rfl, fun {other _ _} entry' front => ?_⟩
  by_contra longer
  obtain ⟨extra, rfl⟩ : lexeme <+: other :=
    List.prefix_of_prefix_length_le (List.prefix_append _ _) front (Nat.le_of_not_le longer)
  obtain ⟨rest, shape⟩ := (List.prefix_append_right_inj lexeme).mp front
  cases extra with
  | nil => simp at longer
  | cons c extra =>
      obtain rfl : c = ' ' := by
        rcases stops with rfl | head
        · cases shape
        · rw [← shape] at head
          exact Option.some.inj head
      -- the longer lexeme contains a blank, so both are quoted texts, and the first ends too early
      obtain ⟨body, whole, inside⟩ := entry'.exists_body (.inl rfl) (by simp)
      obtain ⟨first, more, rfl⟩ := List.exists_cons_of_ne_nil entry.proper.2
      obtain ⟨rfl, behindQuote⟩ := List.cons.inj whole
      obtain ⟨own, same, -⟩ := entry.exists_body (.inr rfl) List.mem_cons_self
      obtain rfl : more = own ++ ['"'] := (List.cons.inj same).2
      have early : body = own ++ '"' :: (' ' :: extra).dropLast := by
        have ends := congrArg List.dropLast behindQuote
        simpa using ends.symm
      exact inside '"' (by rw [early]; simp) rfl

/-- No lexeme in front of a blank, or at the end, starts a comment. -/
lemma not_remark (entry : Lexeme lexeme kind literal)
    (stops : behind = [] ∨ behind.head? = some ' ') : ¬IsRemark (lexeme ++ behind) := by
  rintro ⟨rest, shape⟩
  obtain ⟨first, more, rfl⟩ := List.exists_cons_of_ne_nil entry.proper.2
  obtain ⟨rfl, second⟩ := List.cons.inj shape
  obtain rfl := entry.eq_slash
  obtain rfl : '/' :: rest = behind := second
  rcases stops with none_ | head
  · cases none_
  · cases head

/-- **A text has one kind and one literal.** -/
theorem functional {kind' : Kind} {literal' : Option Literal} (entry : Lexeme lexeme kind literal)
    (other : Lexeme lexeme kind' literal') : kind = kind' ∧ literal = literal' := by
  have stops : ([] : List Char) = [] ∨ ([] : List Char).head? = some ' ' := .inl rfl
  obtain ⟨first, rest, shape, found⟩ :=
    Segment.split_longest (entry.not_remark stops) (entry.longest_spaced stops)
  obtain ⟨first', rest', shape', found'⟩ :=
    Segment.split_longest (other.not_remark stops) (other.longest_spaced stops)
  obtain ⟨rfl, rfl⟩ := List.cons.inj (shape.symm.trans shape')
  rw [found] at found'
  cases found'
  exact ⟨rfl, rfl⟩

end Lexeme

/-! ## The tokens of a text -/

/-- **The tokens of a text are lexemes of the table**, and the end mark behind them. -/
lemma Lexes.exists_entries {line : Nat} {text : List Char} {items : List Item}
    (reading : Lexes line text items) :
    ∃ entries last, Scan.tokens items = entries ++ [.endMark last] ∧
      ∀ token ∈ entries, Lexeme token.lexeme.toList token.kind token.literal := by
  induction reading with
  | finish line => exact ⟨[], line, rfl, by simp⟩
  | blank _ _ ih => exact ih
  | remark _ _ _ ih => exact ih
  | @lexeme line text lexeme behind kind literal items _ longest _ ih =>
      obtain ⟨entries, last, whole, listed⟩ := ih
      refine ⟨⟨kind, .ofList lexeme, literal, line + lexeme.count '\n'⟩ :: entries, last,
        congrArg _ whole, List.forall_mem_cons.mpr ⟨?_, listed⟩⟩
      rw [String.toList_ofList]
      exact longest.entry
  | @unterminated line body _ => exact ⟨[], line + body.count '\n', rfl, by simp⟩
  | stray _ _ _ _ ih => exact ih

namespace Scan

/-- The lexemes of tokens with a blank between each two. -/
def spaced (tokens : List Token) : List Char :=
  [' '].intercalate (tokens.map fun token => token.lexeme.toList)

/-- **Lexemes with blanks between them have the tokens that they are from.** -/
lemma lexes_spaced {tail : List Char} (blank : tail = [] ∨ tail = [' ']) {entries : List Token}
    (listed : ∀ token ∈ entries, Lexeme token.lexeme.toList token.kind token.literal) (line : Nat) :
    ∃ (later : List Token) (last : Nat),
      Lexes line (spaced entries ++ tail) (later.map .ok ++ [.ok (.endMark last)]) ∧
      later.map Token.lineless = entries.map Token.lineless := by
  induction entries generalizing line with
  | nil =>
      refine ⟨[], line, ?_, rfl⟩
      rcases blank with rfl | rfl
      · exact .finish line
      · exact .blank (.inl rfl) (.finish line)
  | cons token others ih =>
      obtain ⟨entry, listed⟩ := List.forall_mem_cons.mp listed
      obtain ⟨later, last, reading, same⟩ := ih listed (line + token.lexeme.toList.count '\n')
      -- a blank in front of the others leaves their reading as it is
      obtain ⟨behind, text, stops, reading⟩ : ∃ behind,
          spaced (token :: others) ++ tail = token.lexeme.toList ++ behind ∧
          (behind = [] ∨ behind.head? = some ' ') ∧
          Lexes (line + token.lexeme.toList.count '\n') behind
            (later.map .ok ++ [.ok (.endMark last)]) := by
        cases others with
        | nil =>
            refine ⟨tail, by simp [spaced], ?_, reading⟩
            exact blank.imp_right fun one => by rw [one]; rfl
        | cons next others =>
            exact ⟨' ' :: (spaced (next :: others) ++ tail), by simp [spaced, List.intercalate_cons_cons],
              .inr rfl, .blank (.inl rfl) reading⟩
      have whole := Lexes.lexeme (entry.not_remark stops) (entry.longest_spaced stops) reading
      rw [← text] at whole
      refine ⟨_ :: later, last, whole, ?_⟩
      simp [Token.lineless, same]

/-- The joined lexemes of a source, with the empty one of the end mark or without it, have its tokens. -/
lemma tokens_joined (source : String) {written : String}
    (joined : written = " ".intercalate ((tokens (items source)).map Token.lexeme) ∨
      written = " ".intercalate ((tokens (items source)).dropLast.map Token.lexeme)) :
    faults (items written) = [] ∧
      (tokens (items written)).map Token.lineless = (tokens (items source)).map Token.lineless := by
  obtain ⟨entries, last, given, listed⟩ := (lexes_itemsFrom 1 source.toList).exists_entries
  rw [← items] at given
  -- in front of the end mark stands one more blank, unless it is alone
  obtain ⟨tail, blank, text⟩ :
      ∃ tail, (tail = [] ∨ tail = [' ']) ∧ written.toList = spaced entries ++ tail := by
    rw [given, List.dropLast_concat] at joined
    rcases joined with rfl | rfl
    · cases entries with
      | nil => exact ⟨[], .inl rfl, by simp [spaced, Token.endMark]⟩
      | cons token others =>
          refine ⟨[' '], .inr rfl, ?_⟩
          rw [List.map_append, String.intercalate_append_of_ne_nil (by simp) (by simp)]
          simp [spaced, Token.endMark, Function.comp_def]
    · exact ⟨[], .inl rfl, by simp [spaced, Function.comp_def]⟩
  obtain ⟨later, last', reading, same⟩ := lexes_spaced blank listed 1
  have whole : items written = later.map .ok ++ [.ok (.endMark last')] := by
    rw [items, text, reading.eq_itemsFrom]
  obtain ⟨found, sound⟩ := tokens_append_map later [.ok (.endMark last')]
  rw [whole, found, sound, given, List.map_append, List.map_append, same]
  exact ⟨rfl, rfl⟩

/-- **Lexemes determine tokens.**  The lexemes of all tokens of a source, joined by single blanks, have
no lexical errors, and the same tokens with the same kinds, lexemes and literals; and so it is without
the empty lexeme of the end mark.  Two sources with the same lexemes have the same tokens up to lines,
whatever else there is in them. -/
theorem tokens_spaced (source : String) :
    let given := tokens (items source)
    let joined := items (" ".intercalate (given.map Token.lexeme))
    let unmarked := items (" ".intercalate (given.dropLast.map Token.lexeme))
    (faults joined = [] ∧ (tokens joined).map Token.lineless = given.map Token.lineless) ∧
      (faults unmarked = [] ∧ (tokens unmarked).map Token.lineless = given.map Token.lineless) ∧
      ∀ other, (tokens (items other)).map Token.lexeme = given.map Token.lexeme →
        (tokens (items other)).map Token.lineless = given.map Token.lineless := by
  intro given joined unmarked
  refine ⟨tokens_joined source (.inl rfl), tokens_joined source (.inr rfl), fun other same => ?_⟩
  have both := (tokens_joined other (.inl rfl)).2
  rw [same] at both
  exact both.symm.trans (tokens_joined source (.inl rfl)).2

/-- Two sources with the same lexemes: one in two lines with a comment, a stray character and an open
quote, and one without all that. -/
theorem tokens_spaced_layout :
    (tokens (items "a!= // b\n\"//\"@1.\"")).map Token.lineless =
      (tokens (items "a != \"//\" 1 .")).map Token.lineless :=
  (tokens_spaced _).2.2 _ (by decide +kernel)

end Scan

end LoxLang
