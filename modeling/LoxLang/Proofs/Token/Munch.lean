import Mathlib
import LoxLang.Proofs.Token.Lexeme

/-!
# The scanner takes the longest lexeme

`Segment.split` decides by the first character and cuts off runs of characters.  Each rule of the
lexer is answered by it in one way.

* `Segment.split_longest`, `split_blank`, `split_remark`, `split_unclosed`, `split_stray` — the first
  segment under each rule.
* `Longest.exists_of_front` — where some lexeme is in front, one of them is the longest.
-/

namespace LoxLang

/-! ## Runs of characters -/

/-- A run in front of a character that does not continue it is what is taken. -/
lemma takeWhile_run {p : Char → Bool} {run behind : List Char} (inside : ∀ c ∈ run, p c = true)
    (stops : ∀ c more, behind = c :: more → p c = false) :
    (run ++ behind).takeWhile p = run ∧ (run ++ behind).dropWhile p = behind := by
  rw [List.takeWhile_append_of_pos inside, List.dropWhile_append_of_pos inside]
  cases behind with
  | nil => simp
  | cons c more => simp [stops c more rfl]

namespace Longest

variable {text lexeme behind : List Char} {kind : Kind} {literal : Option Literal}

/-- Where some lexeme is in front, one of them is the longest. -/
lemma exists_of_front (entry : Lexeme lexeme kind literal) (front : lexeme <+: text) :
    ∃ lexeme kind literal behind, Longest text lexeme kind literal behind := by
  classical
  let lengths : Nat → Prop := fun n => ∃ other kind literal,
    Lexeme other kind literal ∧ other <+: text ∧ other.length = n
  have bounded : ∀ n, lengths n → n ≤ text.length := by
    rintro n ⟨other, -, -, -, front, rfl⟩
    exact front.length_le
  have some : lengths (Nat.findGreatest lengths text.length) :=
    Nat.findGreatest_spec (bounded lexeme.length ⟨_, _, _, entry, front, rfl⟩)
      ⟨_, _, _, entry, front, rfl⟩
  obtain ⟨best, kind, literal, listed, ⟨behind, front⟩, size⟩ := some
  refine ⟨best, kind, literal, behind, listed, front, fun {other _ _} entry front => ?_⟩
  rw [size]
  exact Nat.le_findGreatest front.length_le ⟨_, _, _, entry, front, rfl⟩

/-- The longest lexeme does not go on: no lexeme consists of it and what follows. -/
lemma not_longer (longest : Longest text lexeme kind literal behind) {more rest : List Char}
    (nonempty : more ≠ []) (next : behind = more ++ rest) {kind' : Kind}
    {literal' : Option Literal} : ¬Lexeme (lexeme ++ more) kind' literal' := by
  intro entry
  have short := longest.longest entry ⟨rest, by rw [← longest.front, next, List.append_assoc]⟩
  have := List.length_pos_iff.mpr nonempty
  rw [List.length_append] at short
  omega

end Longest

/-! ## The first characters of lexemes -/

lemma IsDigits.exists_cons {text : List Char} (run : IsDigits text) :
    ∃ first more, text = first :: more ∧ first.isDigit = true ∧ ∀ c ∈ more, c.isDigit = true := by
  obtain ⟨nonempty, inside⟩ := run
  obtain ⟨first, more, rfl⟩ := List.exists_cons_of_ne_nil nonempty
  exact ⟨first, more, rfl, inside first List.mem_cons_self, fun c mem =>
    inside c (List.mem_cons_of_mem first mem)⟩

lemma IsDigits.append {text : List Char} (run : IsDigits text) {c : Char} (digit : c.isDigit = true) :
    IsDigits (text ++ [c]) := by
  refine ⟨by simp, fun d mem => ?_⟩
  rcases List.mem_append.mp mem with old | new
  · exact run.2 d old
  · rwa [List.mem_singleton.mp new]

lemma IsDigits.singleton {c : Char} (digit : c.isDigit = true) : IsDigits [c] :=
  ⟨by simp, by simpa using digit⟩

lemma IsName.append {text : List Char} (run : IsName text) {c : Char} (next : IsNameChar c) :
    IsName (text ++ [c]) := by
  obtain ⟨inside, first, head, letter⟩ := run
  refine ⟨fun d mem => ?_, first, by rw [List.head?_append, head]; rfl, letter⟩
  rcases List.mem_append.mp mem with old | new
  · exact inside d old
  · rwa [List.mem_singleton.mp new]

lemma IsName.exists_cons {text : List Char} (run : IsName text) :
    ∃ first more, text = first :: more ∧ first.isDigit = false ∧
      Segment.startsName first = true ∧ ∀ c ∈ more, Segment.continuesName c = true := by
  obtain ⟨inside, first, head, letter⟩ := run
  obtain ⟨more, rfl⟩ := List.head?_eq_some_iff.mp head
  refine ⟨first, more, rfl, letter, ?_, fun c mem =>
    isNameChar_iff.mp (inside c (List.mem_cons_of_mem _ mem))⟩
  have start := inside first List.mem_cons_self
  simpa [IsNameChar, letter, Segment.startsName] using start

/-- The number that the scanner reads is the one nearest to the digits. -/
lemma Number.isNearest_ofDigits (whole fraction : List Char) :
    IsNearest (decimal whole fraction)
      (nearest (Nat.ofDigitChars 10 (whole ++ fraction) 0) (Nat.pow 10 fraction.length)) := by
  have found := isNearest_nearest (Nat.ofDigitChars 10 (whole ++ fraction) 0)
    (Nat.pow_pos (n := fraction.length) (show 0 < 10 by norm_num))
  simpa [decimal] using found

/-- No other pattern gives the number of the digits. -/
lemma Number.IsNearest.ofPattern_eq {whole fraction : List Char} {pattern : Nat}
    (found : IsNearest (decimal whole fraction) pattern) :
    ofPattern false pattern = ofDigits whole fraction := by
  rw [found.unique (isNearest_ofDigits whole fraction), ofDigits]

namespace Segment

/-- What a character of each class is not. -/
lemma classes_of_isDigit {c : Char} (digit : c.isDigit = true) : isBlank c = false ∧ c ≠ '"' := by
  constructor
  · simp only [isBlank, Bool.or_eq_false_iff, beq_eq_false_iff_ne]
    refine ⟨⟨⟨?_, ?_⟩, ?_⟩, ?_⟩ <;> rintro rfl <;> revert digit <;> decide
  · rintro rfl; revert digit; decide

lemma classes_of_startsName {c : Char} (start : startsName c = true) : isBlank c = false ∧ c ≠ '"' := by
  constructor
  · simp only [isBlank, Bool.or_eq_false_iff, beq_eq_false_iff_ne]
    refine ⟨⟨⟨?_, ?_⟩, ?_⟩, ?_⟩ <;> rintro rfl <;> revert start <;> decide
  · rintro rfl; revert start; decide

/-! ## One rule at a time -/

variable {text lexeme behind : List Char} {kind : Kind} {literal : Option Literal}

lemma split_of_name {first : Char} {rest : List Char} (letter : first.isDigit = false)
    (start : startsName first = true) : split first rest = word first rest := by
  obtain ⟨visible, unquoted⟩ := classes_of_startsName start
  simp [split, visible, unquoted, letter, start]

lemma split_of_digit {first : Char} {rest : List Char} (digit : first.isDigit = true) :
    split first rest = numeral first rest := by
  obtain ⟨visible, unquoted⟩ := classes_of_isDigit digit
  simp [split, visible, unquoted, digit]

/-- A name at the front that is the longest lexeme is taken as a whole. -/
lemma word_longest (longest : Longest text lexeme kind literal behind) (run : IsName lexeme) :
    ∃ first rest, text = first :: rest ∧ first :: rest.takeWhile continuesName = lexeme ∧
      rest.dropWhile continuesName = behind ∧ split first rest = word first rest := by
  have stops : ∀ c more, behind = c :: more → continuesName c = false := by
    intro c more next
    by_contra goes
    obtain ⟨kind', entry⟩ := exists_lexeme_of_isName
      (run.append (isNameChar_iff.mpr (Bool.eq_true_of_not_eq_false goes)))
    exact longest.not_longer (List.cons_ne_nil c []) next entry
  obtain ⟨first, more, rfl, letter, start, within⟩ := run.exists_cons
  obtain ⟨taken, left⟩ := takeWhile_run within stops
  exact ⟨first, more ++ behind, longest.front.symm, by rw [taken], left, split_of_name letter start⟩

lemma split_keyword {reserved : Keyword}
    (longest : Longest text reserved.spelling.toList (.keyword reserved) none behind) :
    ∃ first rest, text = first :: rest ∧
      split first rest = (token (.keyword reserved) reserved.spelling.toList none, behind) := by
  obtain ⟨first, rest, shape, taken, left, cut⟩ := word_longest longest (isName_keyword reserved)
  refine ⟨first, rest, shape, ?_⟩
  have known : Keyword.ofSpelling? reserved.spelling = some reserved := by cases reserved <;> decide
  simp [cut, word, taken, left, known]

lemma split_name (longest : Longest text lexeme .identifier none behind) (run : IsName lexeme)
    (unreserved : ∀ word : Keyword, word.spelling.toList ≠ lexeme) :
    ∃ first rest, text = first :: rest ∧
      split first rest = (token .identifier lexeme none, behind) := by
  obtain ⟨first, rest, shape, taken, left, cut⟩ := word_longest longest run
  refine ⟨first, rest, shape, ?_⟩
  have unknown : Keyword.ofSpelling? (String.ofList lexeme) = none := by
    refine List.find?_eq_none.mpr fun word _ same => unreserved word ?_
    rw [beq_iff_eq.mp same, String.toList_ofList]
  simp [cut, word, taken, left, unknown]

/-- Digits that no point with a digit follows are a number without a fraction. -/
lemma numeral_whole {first : Char} {more : List Char} (within : ∀ c ∈ more, c.isDigit = true)
    (stops : ∀ c rest, behind = c :: rest → c.isDigit = false)
    (unpointed : ∀ c rest, behind = '.' :: c :: rest → c.isDigit = false) :
    numeral first (more ++ behind) =
      (token .number (first :: more) (some (.number (Number.ofDigits (first :: more) []))),
        behind) := by
  obtain ⟨taken, left⟩ := takeWhile_run within stops
  unfold numeral
  rw [taken, left]
  split
  · next c rest => rw [if_neg (by simp [unpointed c rest rfl])]
  · rfl

/-- Digits, a point and digits are one number. -/
lemma numeral_fractional {first : Char} {more fraction : List Char}
    (within : ∀ c ∈ more, c.isDigit = true) (run : IsDigits fraction)
    (stops : ∀ c rest, behind = c :: rest → c.isDigit = false) :
    numeral first (more ++ '.' :: fraction ++ behind) =
      (token .number (first :: more ++ '.' :: fraction)
        (some (.number (Number.ofDigits (first :: more) fraction))), behind) := by
  obtain ⟨digit, later, rfl, isDigit, inside⟩ := run.exists_cons
  obtain ⟨taken, left⟩ := @takeWhile_run Char.isDigit more ('.' :: digit :: (later ++ behind)) within
    fun c rest shape => by obtain ⟨rfl, -⟩ := List.cons.inj shape; rfl
  obtain ⟨takenLater, leftLater⟩ := takeWhile_run inside stops
  have shape : more ++ '.' :: digit :: later ++ behind = more ++ '.' :: digit :: (later ++ behind) := by
    simp
  simp only [numeral, shape, taken, left, isDigit, if_true, takenLater, leftLater]

lemma split_whole {pattern : Nat} (run : IsDigits lexeme)
    (nearest : Number.IsNearest (Number.decimal lexeme []) pattern)
    (longest : Longest text lexeme .number (some (.number (Number.ofPattern false pattern))) behind) :
    ∃ first rest, text = first :: rest ∧ split first rest =
      (token .number lexeme (some (.number (Number.ofPattern false pattern))), behind) := by
  have stops : ∀ c rest, behind = c :: rest → c.isDigit = false := by
    intro c rest next
    by_contra digit
    exact longest.not_longer (List.cons_ne_nil c []) next
      (.whole (run.append (Bool.eq_true_of_not_eq_false digit)) (Number.isNearest_ofDigits _ []))
  have unpointed : ∀ c rest, behind = '.' :: c :: rest → c.isDigit = false := by
    intro c rest next
    by_contra digit
    exact longest.not_longer (List.cons_ne_nil '.' [c]) next
      (.fractional run (.singleton (Bool.eq_true_of_not_eq_false digit))
        (Number.isNearest_ofDigits _ [c]))
  obtain ⟨first, more, rfl, digit, within⟩ := run.exists_cons
  refine ⟨first, more ++ behind, longest.front.symm, ?_⟩
  rw [split_of_digit digit, numeral_whole within stops unpointed, nearest.ofPattern_eq]

lemma split_fractional {digits fraction : List Char} {pattern : Nat} (run : IsDigits digits)
    (later : IsDigits fraction)
    (nearest : Number.IsNearest (Number.decimal digits fraction) pattern)
    (longest : Longest text (digits ++ '.' :: fraction) .number
      (some (.number (Number.ofPattern false pattern))) behind) :
    ∃ first rest, text = first :: rest ∧ split first rest =
      (token .number (digits ++ '.' :: fraction)
        (some (.number (Number.ofPattern false pattern))), behind) := by
  have stops : ∀ c rest, behind = c :: rest → c.isDigit = false := by
    intro c rest next
    by_contra digit
    have longer := Lexeme.fractional run (later.append (Bool.eq_true_of_not_eq_false digit))
      (Number.isNearest_ofDigits _ _)
    rw [← List.cons_append, ← List.append_assoc] at longer
    exact longest.not_longer (List.cons_ne_nil c []) next longer
  obtain ⟨first, more, rfl, digit, within⟩ := run.exists_cons
  refine ⟨first, more ++ '.' :: fraction ++ behind, by rw [← longest.front]; simp, ?_⟩
  rw [split_of_digit digit, numeral_fractional within later stops, nearest.ofPattern_eq]

lemma split_quoted {body : List Char} (inside : ∀ c ∈ body, c ≠ '"') :
    split '"' (body ++ '"' :: behind) =
      (token .string ('"' :: body ++ ['"']) (some (.text (String.ofList body))), behind) := by
  obtain ⟨taken, left⟩ := @takeWhile_run (· != '"') body ('"' :: behind)
    (fun c mem => bne_iff_ne.mpr (inside c mem))
    fun c rest shape => by obtain ⟨rfl, -⟩ := List.cons.inj shape; rfl
  have visible : isBlank '"' = false := by decide
  simp [split, quoted, visible, taken, left]

lemma split_unclosed {body : List Char} (inside : ∀ c ∈ body, c ≠ '"') :
    split '"' body = (unclosed body, []) := by
  obtain ⟨taken, left⟩ := @takeWhile_run (· != '"') body []
    (fun c mem => bne_iff_ne.mpr (inside c mem)) fun c rest shape => by cases shape
  rw [List.append_nil] at taken left
  have visible : isBlank '"' = false := by decide
  simp [split, quoted, visible, taken, left]

lemma split_blank {c : Char} (rest : List Char) (skipped : IsBlank c) :
    split c rest = (blank c, rest) := by
  have blank : isBlank c = true := by rcases skipped with rfl | rfl | rfl | rfl <;> decide
  simp [split, blank]

lemma split_remark {body : List Char} (inside : ∀ c ∈ body, c ≠ '\n')
    (stops : behind = [] ∨ behind.head? = some '\n') :
    split '/' ('/' :: body ++ behind) = (comment body, behind) := by
  obtain ⟨taken, left⟩ := @takeWhile_run (· != '\n') body behind
    (fun c mem => bne_iff_ne.mpr (inside c mem)) fun c rest shape => by
      rcases stops with rfl | head
      · cases shape
      · rw [shape] at head
        obtain rfl := Option.some.inj head
        rfl
  have cut : split '/' ('/' :: body ++ behind) = remark (body ++ behind) := rfl
  rw [cut, remark, taken, left]

/-- An operator that could be longer is not followed by what would make it so. -/
lemma operator_longest {first : Char} {long short : Kind}
    (unextended : ∀ rest, behind ≠ '=' :: rest) :
    operator first long short behind = (token short [first] none, behind) := by
  unfold operator
  split
  · next rest => exact absurd rfl (unextended rest)
  · rfl

lemma slash_longest (unremarked : ∀ rest, behind ≠ '/' :: rest) :
    slash behind = (token .slash ['/'] none, behind) := by
  unfold slash
  split
  · next rest => exact absurd rfl (unremarked rest)
  · rfl

/-- The longest symbol is taken as a whole. -/
lemma split_symbol {spelling : String} (listed : kind ∈ Kind.symbols)
    (spelled : kind.spelling? = some spelling) (unremarked : ¬IsRemark text)
    (longest : Longest text spelling.toList kind none behind) :
    ∃ first rest, text = first :: rest ∧
      split first rest = (token kind spelling.toList none, behind) := by
  have front := longest.front.symm
  -- a symbol with `=` behind it would be the longer one
  have unextended : ∀ {long : Kind}, Lexeme (spelling.toList ++ ['=']) long none →
      ∀ rest, behind ≠ '=' :: rest := fun longer rest next =>
    longest.not_longer (List.cons_ne_nil '=' []) next longer
  cases kind with
  | bang =>
      obtain rfl := Option.some.inj spelled
      exact ⟨_, _, front, operator_longest
        (unextended (@Lexeme.symbol .bangEqual "!=" (by decide) rfl))⟩
  | equal =>
      obtain rfl := Option.some.inj spelled
      exact ⟨_, _, front, operator_longest
        (unextended (@Lexeme.symbol .equalEqual "==" (by decide) rfl))⟩
  | greater =>
      obtain rfl := Option.some.inj spelled
      exact ⟨_, _, front, operator_longest
        (unextended (@Lexeme.symbol .greaterEqual ">=" (by decide) rfl))⟩
  | less =>
      obtain rfl := Option.some.inj spelled
      exact ⟨_, _, front, operator_longest
        (unextended (@Lexeme.symbol .lessEqual "<=" (by decide) rfl))⟩
  | slash =>
      obtain rfl := Option.some.inj spelled
      refine ⟨_, _, front, slash_longest fun rest next => unremarked ⟨rest, ?_⟩⟩
      have next : behind = '/' :: rest := next
      rw [front, next]
      rfl
  | identifier => cases spelled
  | string => cases spelled
  | number => cases spelled
  | keyword word => exact absurd listed (by cases word <;> decide)
  | endOfInput => exact absurd listed (by decide)
  | _ =>
      obtain rfl := Option.some.inj spelled
      exact ⟨_, _, front, rfl⟩

/-- **Where a lexeme is the longest, it is the first segment.** -/
theorem split_longest (unremarked : ¬IsRemark text)
    (longest : Longest text lexeme kind literal behind) :
    ∃ first rest, text = first :: rest ∧
      split first rest = (token kind lexeme literal, behind) := by
  have entry := longest.entry
  cases entry with
  | symbol listed spelled => exact split_symbol listed spelled unremarked longest
  | whole run nearest => exact split_whole run nearest longest
  | fractional run later nearest => exact split_fractional run later nearest longest
  | keyword word => exact split_keyword longest
  | name run unreserved => exact split_name longest run unreserved
  | @string body inside =>
      refine ⟨'"', body ++ '"' :: behind, ?_, split_quoted inside⟩
      rw [← longest.front]
      simp

/-- A character that starts no lexeme, no comment and no quoted text is a segment of its own. -/
theorem split_stray {c : Char} {rest : List Char} (visible : ¬IsBlank c) (unquoted : c ≠ '"')
    (none_ : ∀ {lexeme kind literal}, Lexeme lexeme kind literal → ¬lexeme <+: c :: rest) :
    split c rest = (stray c, rest) := by
  have front : [c] <+: c :: rest := ⟨rest, rfl⟩
  have blank : isBlank c = false := by
    simp only [IsBlank, not_or] at visible
    simp [isBlank, visible]
  have digit : c.isDigit = false := by
    by_contra digit
    exact none_ (.whole (.singleton (Bool.eq_true_of_not_eq_false digit))
      (Number.isNearest_ofDigits _ [])) front
  have letter : startsName c = false := by
    by_contra start
    have allowed : IsNameChar c := by
      have start := Bool.eq_true_of_not_eq_false start
      simpa [IsNameChar, digit, startsName] using start
    have run : IsName [c] := ⟨by simpa using allowed, c, rfl, digit⟩
    obtain ⟨kind, entry⟩ := exists_lexeme_of_isName run
    exact none_ entry front
  have unlisted : ∀ kind : Kind, kind ∈ Kind.symbols →
      kind.spelling? = some (String.ofList [c]) → False := fun _ listed spelled => by
    have entry := Lexeme.symbol listed spelled
    rw [String.toList_ofList] at entry
    exact none_ entry front
  have unsliced : c ≠ '/' := by
    rintro rfl
    exact unlisted .slash (by decide) rfl
  have unextensible : extensible? c = none := by
    unfold extensible?
    split
    · exact (unlisted .bang (by decide) rfl).elim
    · exact (unlisted .equal (by decide) rfl).elim
    · exact (unlisted .less (by decide) rfl).elim
    · exact (unlisted .greater (by decide) rfl).elim
    · rfl
  have unsingled : single? c = none := by
    cases found : single? c with
    | none => rfl
    | some kind =>
        have spelled : kind ∈ Kind.symbols ∧ kind.spelling? = some (String.ofList [c]) := by
          unfold single? at found
          split at found <;> cases found <;> exact ⟨by decide, rfl⟩
        exact (unlisted kind spelled.1 spelled.2).elim
  simp [split, blank, unquoted, digit, letter, unsliced, symbol, unextensible, unsingled]

end Segment

end LoxLang
