import Mathlib
import LoxLang.Proofs.Token.ByteScan
import LoxLang.Proofs.Token.Partition

/-!
# The scanner on bytes and the segments of a source

Whenever the scanner on bytes begins a lexeme, it stands between two characters, and it has left behind
the text of some segments.  From there it reads the next segment, whatever bytes this consists of, and
stands between two characters again.

* `Head.At` — a scanner between the characters of its source.
* `Head.At.skip`, `Head.At.throughText` and so on — what it does there, in terms of characters.
* **`ByteScan.scan_split`** — one lexeme is one segment.
* **`ByteScan.calls_ahead`** — calls give the items ahead, and nothing behind them.
* **`Cursor.yields_iff_lexes`** — a scan yields the items of the lexer, and so does one of bytes.
* **`Scan.items_partition`** — a source is cut into segments, and its items are those of the segments.
-/

namespace LoxLang

open Utf8

/-! ## Characters from 128 on belong to no class -/

namespace Segment

variable {c : Char}

lemma isBlank_wide (wide : 128 ≤ c.toNat) : isBlank c = false := by
  rw [Bool.eq_false_iff]
  intro blank
  simp only [isBlank, Bool.or_eq_true, beq_iff_eq] at blank
  rcases blank with ((rfl | rfl) | rfl) | rfl <;> exact absurd wide (by decide)

lemma isDigit_wide (wide : 128 ≤ c.toNat) : c.isDigit = false := by
  rw [Bool.eq_false_iff]
  intro digit
  simp only [Char.isDigit, Bool.and_eq_true, decide_eq_true_eq] at digit
  have bound : c.toNat ≤ 57 := digit.2
  omega

lemma isAlpha_wide (wide : 128 ≤ c.toNat) : c.isAlpha = false := by
  rw [Bool.eq_false_iff]
  intro letter
  simp only [Char.isAlpha, Char.isUpper, Char.isLower, Bool.or_eq_true, Bool.and_eq_true,
    decide_eq_true_eq] at letter
  have bound : c.toNat ≤ 122 := letter.elim (fun upper => le_trans upper.2 (by decide)) fun lower => lower.2
  omega

lemma ne_wide {known : Char} (wide : 128 ≤ c.toNat) (narrow : known.toNat < 128) : c ≠ known := by
  rintro rfl
  omega

lemma startsName_wide (wide : 128 ≤ c.toNat) : startsName c = false := by
  have other : c ≠ '_' := ne_wide wide (by decide)
  simp [startsName, isAlpha_wide wide, other]

lemma continuesName_wide (wide : 128 ≤ c.toNat) : continuesName c = false := by
  have other : c ≠ '_' := ne_wide wide (by decide)
  simp [continuesName, Char.isAlphanum, isAlpha_wide wide, isDigit_wide wide, other]

lemma extensible?_wide (wide : 128 ≤ c.toNat) : extensible? c = none := by
  unfold extensible?
  split
  · exact absurd wide (by decide)
  · exact absurd wide (by decide)
  · exact absurd wide (by decide)
  · exact absurd wide (by decide)
  · rfl

lemma single?_wide (wide : 128 ≤ c.toNat) : single? c = none := by
  unfold single?
  split
  all_goals first | exact absurd wide (by decide) | rfl

end Segment

/-! ## Between characters -/

/-- The scanner past `front`. -/
def Head.past (head : Head) (front : List Char) : Head := { head with curr := (encoded front).length }

@[simp]
lemma Head.past_start (head : Head) (front : List Char) : (head.past front).start = head.start := rfl

@[simp]
lemma Head.past_past (head : Head) (front more : List Char) :
    (head.past front).past more = head.past more := rfl

/-- The scanner stands between `front` and `ahead`, which are the whole source. -/
structure Head.At (source : List Char) (head : Head) (front ahead : List Char) : Prop where
  whole : front ++ ahead = source
  curr : head.curr = (encoded front).length

namespace Head.At

open ByteScan

variable {source front ahead rest : List Char} {c : Char} {head : Head}

lemma past (whole : front ++ ahead = source) (head : Head) : (head.past front).At source front ahead :=
  ⟨whole, rfl⟩

lemma past_self (stands : head.At source front ahead) : head.past front = head := by
  rw [Head.past, ← stands.curr]

lemma size_eq (stands : head.At source front ahead) :
    size source = head.curr + (encoded ahead).length := by
  rw [size, ← stands.whole, encoded_append, List.length_append, stands.curr]

lemma size_le (stands : head.At source front []) : size source ≤ head.curr := by
  rw [stands.size_eq, encoded_nil, List.length_nil, Nat.add_zero]

lemma curr_lt (stands : head.At source front (c :: rest)) : head.curr < size source := by
  have positive := Char.utf8Size_pos c
  rw [stands.size_eq, length_encoded_cons]
  omega

/-- The bytes ahead are those of the text ahead. -/
lemma drop_eq (stands : head.At source front ahead) :
    (encoded source).drop head.curr = encoded ahead := by
  rw [← stands.whole, encoded_append, stands.curr, List.drop_left]

lemma byte (stands : head.At source front (c :: rest)) :
    ∃ seen, Glimpse c seen ∧ byte? source head.curr = some seen := by
  obtain ⟨first, more, bytes, glimpse⟩ := exists_glimpse c
  refine ⟨Char.ofUInt8 first, glimpse, ?_⟩
  have here : (encoded source)[head.curr]? = some first := by
    rw [← List.head?_drop, stands.drop_eq, encoded_cons, bytes]
    rfl
  rw [byte?, here]
  rfl

lemma peek_end (stands : head.At source front []) : peek source head = some '\x00' := by
  rw [peek, if_pos stands.size_le]

lemma peek_cons (stands : head.At source front (c :: rest)) :
    ∃ seen, Glimpse c seen ∧ peek source head = some seen := by
  obtain ⟨seen, glimpse, here⟩ := stands.byte
  exact ⟨seen, glimpse, by rw [peek, if_neg (Nat.not_le.mpr stands.curr_lt), here]⟩

lemma advance (stands : head.At source front (c :: rest)) : ∃ seen, Glimpse c seen ∧
    advance source head = some (seen, { head with curr := head.curr + 1 }) := by
  obtain ⟨seen, glimpse, here⟩ := stands.byte
  exact ⟨seen, glimpse, by rw [ByteScan.advance, here]; rfl⟩

/-- Behind a character below 128 the scanner is between characters again. -/
lemma succ (stands : head.At source front (c :: rest)) (narrow : c.toNat < 128) :
    { head with curr := head.curr + 1 } = head.past (front ++ [c]) := by
  have one : (encoded (front ++ [c])).length = head.curr + 1 := by
    rw [encoded_append, List.length_append, ← stands.curr, encoded_cons, encodeChar_narrow narrow]
    rfl
  rw [Head.past, one]

lemma advance_narrow (stands : head.At source front (c :: rest)) (narrow : c.toNat < 128) :
    ByteScan.advance source head = some (c, head.past (front ++ [c])) := by
  obtain ⟨seen, glimpse, read⟩ := stands.advance
  rw [read, stands.succ narrow, (glimpse.eq_iff narrow).mpr rfl]

lemma matchByte_true {expected : Char} (stands : head.At source front (expected :: rest))
    (narrow : expected.toNat < 128) :
    matchByte source expected head = some (true, head.past (front ++ [expected])) := by
  obtain ⟨seen, glimpse, here⟩ := stands.peek_cons
  obtain rfl := (glimpse.eq_iff narrow).mpr rfl
  rw [matchByte, if_neg (Nat.not_le.mpr stands.curr_lt), here]
  simp [stands.advance_narrow narrow]

lemma matchByte_false {expected : Char} (stands : head.At source front ahead)
    (narrow : expected.toNat < 128) (other : ahead.head? ≠ some expected) :
    matchByte source expected head = some (false, head) := by
  cases ahead with
  | nil => rw [matchByte, if_pos stands.size_le]
  | cons c rest =>
      obtain ⟨seen, glimpse, here⟩ := stands.peek_cons
      have unlike : seen ≠ expected := fun same =>
        other (congrArg some ((glimpse.eq_iff narrow).mp same))
      rw [matchByte, if_neg (Nat.not_le.mpr stands.curr_lt), here]
      simp [unlike]

end Head.At

/-! ## Runs of bytes -/

namespace ByteScan

variable {source : List Char} {head : Head}

/-- The bytes from an index on that belong to a class. -/
def run (source : List Char) (goes : Char → Bool) (index : Nat) : List UInt8 :=
  ((encoded source).drop index).takeWhile fun byte => goes (Char.ofUInt8 byte)

lemma run_end {goes : Char → Bool} {index : Nat} (done : size source ≤ index) :
    run source goes index = [] := by
  rw [run, List.drop_eq_nil_of_le done]
  rfl

/-- Before the end there is a byte to read, and the run ahead depends on it. -/
lemma exists_byte (inside : head.curr < size source) : ∃ byte,
    peek source head = some (Char.ofUInt8 byte) ∧
    advance source head = some (Char.ofUInt8 byte, { head with curr := head.curr + 1 }) ∧
    ∀ goes, run source goes head.curr =
      if goes (Char.ofUInt8 byte) then byte :: run source goes (head.curr + 1) else [] := by
  have here : byte? source head.curr = some (Char.ofUInt8 (encoded source)[head.curr]) := by
    rw [byte?, List.getElem?_eq_getElem inside]
    rfl
  refine ⟨(encoded source)[head.curr], ?_, ?_, fun goes => ?_⟩
  · rw [peek, if_neg (Nat.not_le.mpr inside), here]
  · rw [advance, here]
    rfl
  · rw [run, List.drop_eq_getElem_cons inside, List.takeWhile_cons]
    rfl

lemma skip_eq {goes : Char → Bool} (stops : goes '\x00' = false) (inside : head.curr ≤ size source) :
    skip source goes head =
      some { head with curr := head.curr + (run source goes head.curr).length } := by
  induction left : size source - head.curr generalizing head with
  | zero =>
      have done : size source ≤ head.curr := by omega
      rw [skip, peek, if_pos done, Option.bind_some, if_neg (by simp [stops]), run_end done]
      rfl
  | succ others ih =>
      have next : head.curr + 1 ≤ size source := by omega
      have fewer : size source - (head.curr + 1) = others := by omega
      obtain ⟨byte, here, read, ahead⟩ := exists_byte next
      have inside' : ({ head with curr := head.curr + 1 } : Head).curr ≤ size source := next
      rw [skip, here, Option.bind_some, ahead]
      split
      · split
        · next none_ => rw [read] at none_; cases none_
        · next c after some_ =>
            rw [read] at some_
            cases some_
            rw [ih inside' fewer, List.length_cons, Nat.add_assoc, Nat.add_comm 1]
      · rfl

lemma throughText_eq (inside : head.curr ≤ size source) :
    throughText source head = some { head with
      curr := head.curr + (run source (· != '"') head.curr).length
      line := head.line + ((run source (· != '"') head.curr).map Char.ofUInt8).count '\n' } := by
  induction left : size source - head.curr generalizing head with
  | zero =>
      have done : size source ≤ head.curr := by omega
      rw [throughText, if_pos done, run_end done]
      rfl
  | succ others ih =>
      have next : head.curr + 1 ≤ size source := by omega
      have fewer : size source - (head.curr + 1) = others := by omega
      obtain ⟨byte, here, read, ahead⟩ := exists_byte next
      rw [throughText, if_neg (by omega), here, Option.bind_some, ahead]
      by_cases quote : Char.ofUInt8 byte = '"'
      · rw [if_pos quote, if_neg (by simp [quote])]
        rfl
      · rw [if_neg quote, if_pos (by simp [quote])]
        split
        · next none_ => rw [read] at none_; cases none_
        · next c after some_ =>
            rw [read] at some_
            cases some_
            -- The line number steps exactly when the count of newlines does.
            by_cases newline : Char.ofUInt8 byte = '\n'
            · have inside' : Head.curr ⟨head.start, head.curr + 1, head.line + 1⟩ ≤ size source := next
              rw [if_pos newline, ih inside' fewer]
              simp only [List.length_cons, List.map_cons, newline, List.count_cons_self,
                Nat.add_assoc, Nat.add_comm 1]
            · have inside' : Head.curr ⟨head.start, head.curr + 1, head.line⟩ ≤ size source := next
              rw [if_neg newline, ih inside' fewer]
              simp only [List.length_cons, List.map_cons, List.count_cons_of_ne newline,
                Nat.add_assoc, Nat.add_comm 1]

end ByteScan

namespace Head.At

open ByteScan

variable {source front ahead rest : List Char} {c : Char} {head : Head}

/-- The run of bytes ahead is a run of characters. -/
lemma run_eq (stands : head.At source front ahead) {goes : Char → Bool} {other : Bool}
    (uniform : ∀ c : Char, 128 ≤ c.toNat → goes c = other) :
    run source goes head.curr = encoded (ahead.takeWhile goes) := by
  rw [run, stands.drop_eq, takeWhile_encoded uniform]

lemma past_append (stands : head.At source front ahead) (more : List Char) :
    head.past (front ++ more) = { head with curr := head.curr + (encoded more).length } := by
  rw [Head.past, encoded_append, List.length_append, stands.curr]

lemma curr_le (stands : head.At source front ahead) : head.curr ≤ size source := by
  rw [stands.size_eq]
  exact Nat.le_add_right _ _

lemma skip {goes : Char → Bool} {run behind : List Char} (stands : head.At source front (run ++ behind))
    (inside : ∀ c ∈ run, goes c = true) (stops : ∀ c more, behind = c :: more → goes c = false)
    (zero : goes '\x00' = false) (uniform : ∀ c : Char, 128 ≤ c.toNat → goes c = false) :
    ByteScan.skip source goes head = some (head.past (front ++ run)) := by
  rw [skip_eq zero stands.curr_le, stands.run_eq uniform, (takeWhile_run inside stops).1,
    stands.past_append]

lemma throughText {body behind : List Char} (stands : head.At source front (body ++ behind))
    (inside : ∀ c ∈ body, (c != '"') = true)
    (stops : ∀ c more, behind = c :: more → (c != '"') = false) :
    ByteScan.throughText source head =
      some ⟨head.start, (encoded (front ++ body)).length, head.line + body.count '\n'⟩ := by
  have uniform : ∀ c : Char, 128 ≤ c.toNat → (c != '"') = true := fun c wide =>
    bne_iff_ne.mpr (Segment.ne_wide wide (by decide))
  have taken := (takeWhile_run (p := (· != '"')) inside stops).1
  rw [throughText_eq stands.curr_le, stands.run_eq uniform, taken, count_encoded, encoded_append,
    List.length_append, stands.curr]

lemma toLineEnd (stands : head.At source front ahead) :
    ByteScan.toLineEnd source head = some (head.past (front ++ ahead.takeWhile (· != '\n'))) := by
  have uniform : ∀ c : Char, 128 ≤ c.toNat → (c != '\n') = true := fun c wide =>
    bne_iff_ne.mpr (Segment.ne_wide wide (by decide))
  have position : ∀ bytes : List UInt8, (bytes.takeWhile fun byte => Char.ofUInt8 byte != '\n').length =
      bytes.findIdx fun byte => Char.ofUInt8 byte == '\n' := by
    intro bytes
    rw [List.takeWhile_eq_take_findIdx_not, List.length_take]
    simp only [bne, Bool.not_not]
    exact Nat.min_eq_left List.findIdx_le_length
  rw [stands.past_append, ← takeWhile_encoded uniform, position, ByteScan.toLineEnd,
    if_pos stands.curr_le, stands.drop_eq]
  split
  · next found => rw [(List.findIdx?_eq_some_iff_findIdx_eq.mp found).2]
  · next none_ => rw [List.findIdx?_eq_none_iff_findIdx_eq.mp none_, stands.size_eq]

/-- Further on, behind some of the text ahead. -/
lemma further {run behind : List Char} (stands : head.At source front (run ++ behind)) (other : Head) :
    (other.past (front ++ run)).At source (front ++ run) behind :=
  .past (by rw [List.append_assoc, stands.whole]) other

lemma exists_peek (stands : head.At source front ahead) : ∃ seen, peek source head = some seen ∧
    (seen.isDigit = true ↔ ∃ c after, ahead = c :: after ∧ c.isDigit = true) := by
  cases ahead with
  | nil => exact ⟨'\x00', stands.peek_end, by simp⟩
  | cons c rest =>
      obtain ⟨seen, glimpse, here⟩ := stands.peek_cons
      refine ⟨seen, here, ?_⟩
      rw [glimpse.apply_eq fun c => Segment.isDigit_wide]
      simp

/-- Whether a point with a digit behind it is ahead can be seen from two bytes. -/
lemma point (stands : head.At source front ahead) : ∃ point digit, peek source head = some point ∧
    peekNext source head = some digit ∧ ((point = '.' ∧ digit.isDigit = true) ↔
      ∃ c after, ahead = '.' :: c :: after ∧ c.isDigit = true) := by
  have behind : peekNext source head = peek source { head with curr := head.curr + 1 } := rfl
  cases ahead with
  | nil =>
      have done : peekNext source head = some '\x00' := by
        rw [peekNext, if_pos (Nat.le_succ_of_le stands.size_le)]
      exact ⟨'\x00', '\x00', stands.peek_end, done, by simp⟩
  | cons c rest =>
      obtain ⟨seen, glimpse, here⟩ := stands.peek_cons
      by_cases dot : c = '.'
      · subst dot
        have there : (head.past (front ++ ['.'])).At source (front ++ ['.']) rest := stands.further head
        rw [stands.succ (by decide)] at behind
        obtain ⟨digit, next, iff⟩ := there.exists_peek
        refine ⟨seen, digit, here, behind.trans next, ?_⟩
        rw [iff, glimpse.eq_iff (by decide)]
        simp
      · have unlike : seen ≠ '.' := fun same => dot ((glimpse.eq_iff (by decide)).mp same)
        obtain ⟨digit, next⟩ : ∃ digit, peekNext source head = some digit := by
          by_cases inside : head.curr + 1 < size source
          · obtain ⟨byte, next, -⟩ := @exists_byte source { head with curr := head.curr + 1 } inside
            exact ⟨_, behind.trans next⟩
          · exact ⟨'\x00', by rw [peekNext, if_pos (Nat.le_of_not_lt inside)]⟩
        exact ⟨seen, digit, here, next, by simp [unlike, dot]⟩

/-- What is between two places of the source can be sliced. -/
lemma slice (stands : head.At source front ahead) {start : Nat} (before : List Char)
    {between : List Char} (same : before ++ between = front)
    (starts : start = (encoded before).length) :
    slice? source start head.curr = some between := by
  rw [starts, stands.curr, ← stands.whole, ← same]
  exact slice?_eq_some_iff.mpr ⟨before, ahead, rfl, rfl, rfl⟩

end Head.At

/-! ## One lexeme is one segment -/

/-- What a segment is to the scanner. -/
def Segment.scanned : Segment → Scanned
  | blank _ => .nothing
  | comment _ => .nothing
  | token kind _ literal => .token kind literal
  | stray _ => .fault .unexpectedCharacter
  | unclosed _ => .fault .unterminatedString

/-- The scanner when it has read a segment behind `front`. -/
def Head.read (head : Head) (front : List Char) (segment : Segment) : Head :=
  { head with
    curr := (encoded (front ++ segment.text)).length
    line := head.line + segment.newlines }

@[simp]
lemma Head.read_start (head : Head) (front : List Char) (segment : Segment) :
    (head.read front segment).start = head.start := rfl

lemma Head.read_of_flat (head : Head) (front : List Char) {segment : Segment}
    (flat : segment.newlines = 0) : head.read front segment = head.past (front ++ segment.text) := by
  rw [Head.read, flat]
  rfl

namespace ByteScan

open Segment

variable {source front rest : List Char} {first : Char} {head : Head}

/-- A text starts with a run of characters of a class. -/
lemma exists_run (goes : Char → Bool) (text : List Char) : ∃ run behind, text = run ++ behind ∧
    (∀ c ∈ run, goes c = true) ∧ ∀ c more, behind = c :: more → goes c = false := by
  refine ⟨text.takeWhile goes, text.dropWhile goes, List.takeWhile_append_dropWhile.symm,
    fun c mem => List.mem_takeWhile_imp mem, fun c more shape => ?_⟩
  have stop := List.head?_dropWhile_not goes text
  rw [shape] at stop
  simpa using stop

/-- No line ends in a run of characters of a class without the line end. -/
lemma count_run {goes : Char → Bool} {run : List Char} (inside : ∀ c ∈ run, goes c = true)
    (flat : goes '\n' = false) : run.count '\n' = 0 := by
  refine List.count_eq_zero.mpr fun mem => ?_
  rw [inside _ mem] at flat
  cases flat

lemma string_quoted (stands : head.At source (front ++ ['"']) rest)
    (starts : head.start = (encoded front).length) :
    string source head = some ((quoted rest).1.scanned, head.read front (quoted rest).1) := by
  obtain ⟨body, behind, rfl, inside, stops⟩ := exists_run (· != '"') rest
  obtain ⟨taken, left⟩ := takeWhile_run (p := (· != '"')) inside stops
  have there : (⟨head.start, (encoded (front ++ ['"'] ++ body)).length,
      head.line + body.count '\n'⟩ : Head).At source (front ++ ['"'] ++ body) behind :=
    ⟨(stands.further head).whole, rfl⟩
  rw [string, stands.throughText inside stops]
  simp only [Option.bind_eq_bind, Option.bind_some]
  cases behind with
  | nil =>
      have cut : quoted (body ++ []) = (unclosed body, []) := by simp only [quoted, taken, left]
      rw [if_pos there.size_le, cut, Head.read, Scan.newlines_unclosed, text]
      simp [scanned]
  | cons quote after =>
      obtain rfl : quote = '"' := by simpa using stops quote after rfl
      have cut : quoted (body ++ '"' :: after) =
          (token .string ('"' :: body ++ ['"']) (some (.text (String.ofList body))), after) := by
        simp only [quoted, taken, left]
      have lines : (token .string ('"' :: body ++ ['"']) (some (.text (String.ofList body)))).newlines =
          body.count '\n' := by
        simp [newlines, text]
      have behindQuote : head.start + 1 = (encoded (front ++ ['"'])).length := by
        rw [starts, encoded_append, List.length_append]
        rfl
      have between := there.slice (front ++ ['"']) rfl behindQuote
      have closed := there.succ (by decide)
      have read := there.advance_narrow (by decide)
      have whole : front ++ ['"'] ++ body ++ ['"'] = front ++ ('"' :: body ++ ['"']) := by simp
      have curr := congrArg Head.curr closed
      rw [whole] at curr
      rw [← closed] at read
      rw [if_neg (Nat.not_le.mpr there.curr_lt), read, cut]
      simp only [Option.bind_some]
      rw [Nat.add_sub_cancel, between, Head.read, lines]
      exact congrArg (fun index => some (_, Head.mk _ index _)) curr

lemma numberOf_whole {digits : List Char} (run : ∀ c ∈ digits, c.isDigit = true) :
    numberOf digits = Number.ofDigits digits [] := by
  obtain ⟨taken, left⟩ := @takeWhile_run Char.isDigit digits [] run fun c more shape => by cases shape
  rw [List.append_nil] at taken left
  rw [numberOf, taken, left]
  rfl

lemma numberOf_fractional {digits fraction : List Char} (run : ∀ c ∈ digits, c.isDigit = true) :
    numberOf (digits ++ '.' :: fraction) = Number.ofDigits digits fraction := by
  obtain ⟨taken, left⟩ := @takeWhile_run Char.isDigit digits ('.' :: fraction) run fun c more shape => by
    obtain ⟨rfl, -⟩ := List.cons.inj shape
    rfl
  rw [numberOf, taken, left]
  rfl

lemma number_numeral (stands : head.At source (front ++ [first]) rest) (digit : first.isDigit = true)
    (starts : head.start = (encoded front).length) :
    number source head = some ((numeral first rest).1.scanned, head.read front (numeral first rest).1) := by
  obtain ⟨more, behind, rfl, within, stops⟩ := exists_run Char.isDigit rest
  have wide : ∀ c : Char, 128 ≤ c.toNat → c.isDigit = false := fun c => isDigit_wide
  have unbroken : first ≠ '\n' := by
    rintro rfl
    cases digit
  have there := stands.further head
  obtain ⟨point, next, here, behindIt, pointed⟩ := there.point
  rw [number, stands.skip within stops (by decide) wide]
  simp only [Option.bind_eq_bind, Option.bind_some, here, behindIt]
  by_cases fractional : ∃ c after, behind = '.' :: c :: after ∧ c.isDigit = true
  · have onward : (decide (point = '.') && next.isDigit) = true := by
      rw [Bool.and_eq_true, decide_eq_true_eq, pointed]
      exact fractional
    obtain ⟨c, after, rfl, isDigit⟩ := fractional
    obtain ⟨fraction, behind, shape, inside, stops⟩ := exists_run Char.isDigit (c :: after)
    have run : IsDigits fraction := by
      refine ⟨?_, inside⟩
      rintro rfl
      rw [stops c after shape.symm] at isDigit
      cases isDigit
    have dotted : (head.past _).At source (front ++ [first] ++ more ++ ['.']) (c :: after) :=
      there.further head
    rw [shape] at dotted
    have past := dotted.further head
    have whole : front ++ (first :: more ++ '.' :: fraction) =
        front ++ [first] ++ more ++ ['.'] ++ fraction := by simp
    have lexeme := past.slice front whole starts
    have cut : numeral first (more ++ '.' :: fraction ++ behind) = _ :=
      numeral_fractional within run stops
    rw [List.append_assoc, List.cons_append, ← shape] at cut
    have flat : (token .number (first :: more ++ '.' :: fraction)
        (some (.number (Number.ofDigits (first :: more) fraction)))).newlines = 0 := by
      have front := count_run (List.forall_mem_cons.mpr ⟨digit, within⟩) (by decide)
      rw [newlines, text, List.count_append, front, List.count_cons_of_ne (by decide),
        count_run inside (by decide)]
    have digits : ∀ c ∈ first :: more, c.isDigit = true := List.forall_mem_cons.mpr ⟨digit, within⟩
    rw [if_pos onward, there.advance_narrow (by decide), cut, Head.read_of_flat _ _ flat]
    simp only [Option.bind_some, Head.past_past]
    rw [dotted.skip inside stops (by decide) wide, Option.bind_some, Head.past_past, Head.past_start,
      lexeme, Option.bind_some, numberOf_fractional digits]
    exact congrArg (fun text => some (_, head.past text)) whole.symm
  · have cut : numeral first (more ++ behind) = _ := numeral_whole within stops fun c after shape =>
      Bool.eq_false_iff.mpr fun isDigit => fractional ⟨c, after, shape, isDigit⟩
    have alone : ¬(decide (point = '.') && next.isDigit) = true := by
      rw [Bool.and_eq_true, decide_eq_true_eq, pointed]
      exact fractional
    have whole : front ++ (first :: more) = front ++ [first] ++ more := by simp
    have lexeme := there.slice front whole starts
    have digits : ∀ c ∈ first :: more, c.isDigit = true := List.forall_mem_cons.mpr ⟨digit, within⟩
    have flat : (token .number (first :: more)
        (some (.number (Number.ofDigits (first :: more) [])))).newlines = 0 :=
      count_run digits (by decide)
    rw [if_neg alone, cut, Head.read_of_flat _ _ flat, Head.past_start, lexeme, Option.bind_some,
      numberOf_whole digits]
    exact congrArg (fun text => some (_, head.past text)) whole.symm

lemma identifier_word (stands : head.At source (front ++ [first]) rest) (unbroken : first ≠ '\n')
    (starts : head.start = (encoded front).length) :
    identifier source head = some ((word first rest).1.scanned, head.read front (word first rest).1) := by
  obtain ⟨more, behind, rfl, within, stops⟩ := exists_run continuesName rest
  have skipped := stands.skip within stops (by decide) fun c => continuesName_wide
  have there := stands.further head
  have lexeme : slice? source head.start _ = some (first :: more) := there.slice front (by simp) starts
  have taken := (takeWhile_run within stops).1
  have flat : (word first (more ++ behind)).1.newlines = 0 := by
    rw [newlines, word, text, taken, List.count_cons_of_ne unbroken, count_run within (by decide)]
  rw [Head.read_of_flat _ _ flat, identifier, skipped]
  simp only [Option.bind_eq_bind, Option.bind_some, word, scanned, text, taken]
  rw [Head.past_start, lexeme, Option.bind_some, List.append_assoc]
  cases Keyword.ofSpelling? (String.ofList (first :: more)) with
  | none => rfl
  | some keyword => rfl

/-- A comment or the operator, behind the first slash. -/
lemma slash_slash (stands : head.At source (front ++ ['/']) rest) :
    ByteScan.slash source head =
      some ((Segment.slash rest).1.scanned, head.read front (Segment.slash rest).1) := by
  by_cases second : ∃ after, rest = '/' :: after
  · obtain ⟨after, rfl⟩ := second
    have there : (head.past (front ++ ['/'] ++ ['/'])).At source (front ++ ['/'] ++ ['/']) after :=
      stands.further head
    have inside : ∀ c ∈ after.takeWhile (· != '\n'), c ≠ '\n' := fun c mem =>
      bne_iff_ne.mp (List.mem_takeWhile_imp (p := (· != '\n')) mem)
    rw [Segment.slash, remark, Head.read_of_flat _ _ (Scan.newlines_remark inside), ByteScan.slash,
      stands.matchByte_true (by decide)]
    simp only [Option.bind_eq_bind, Option.bind_some, if_true]
    rw [there.toLineEnd]
    simp [scanned, text]
  · have other : rest.head? ≠ some '/' := by
      intro found
      obtain ⟨after, rfl⟩ := List.head?_eq_some_iff.mp found
      exact second ⟨after, rfl⟩
    have cut : Segment.slash rest = (.token .slash ['/'] none, rest) := by
      rw [Segment.slash]
      · rfl
      · exact fun after shape => second ⟨after, shape⟩
    have flat : (Segment.token .slash ['/'] none).newlines = 0 := rfl
    rw [cut, Head.read_of_flat _ _ flat, ByteScan.slash, stands.matchByte_false (by decide) other, text]
    rw [← stands.past_self]
    rfl

/-- An operator, behind its first character. -/
lemma either_operator (stands : head.At source (front ++ [first]) rest) (unbroken : first ≠ '\n')
    (long short : Kind) :
    either source long short head = some ((operator first long short rest).1.scanned,
      head.read front (operator first long short rest).1) := by
  by_cases longer : ∃ after, rest = '=' :: after
  · obtain ⟨after, rfl⟩ := longer
    have flat : (Segment.token long [first, '='] none).newlines = 0 := by
      rw [newlines, text, List.count_cons_of_ne unbroken]
      rfl
    rw [operator, Head.read_of_flat _ _ flat, either, stands.matchByte_true (by decide)]
    simp [scanned, text]
  · have other : rest.head? ≠ some '=' := by
      intro found
      obtain ⟨after, rfl⟩ := List.head?_eq_some_iff.mp found
      exact longer ⟨after, rfl⟩
    have cut : operator first long short rest = (.token short [first] none, rest) := by
      rw [operator]
      exact fun after shape => longer ⟨after, shape⟩
    have flat : (Segment.token short [first] none).newlines = 0 := by
      rw [newlines, text, List.count_cons_of_ne unbroken]
      rfl
    rw [cut, Head.read_of_flat _ _ flat, either, stands.matchByte_false (by decide) other, text]
    rw [← stands.past_self]
    rfl

/-- A character that starts nothing, behind its first byte. -/
lemma stray_stray (stands : head.At source front (first :: rest)) (unbroken : first ≠ '\n')
    {after : Head} (starts : after.start = (encoded front).length) :
    stray source after = some (.fault .unexpectedCharacter, after.read front (.stray first)) := by
  have text : slice? source after.start (size source) = some (first :: rest) := by
    refine slice?_eq_some_iff.mpr ⟨front, [], ?_, starts.symm, by rw [stands.whole, size]⟩
    rw [List.append_nil, stands.whole]
  have flat : (Segment.stray first).newlines = 0 :=
    List.count_singleton.trans (if_neg (by simpa using unbroken))
  have next : after.start + first.utf8Size = (encoded (front ++ [first])).length := by
    rw [starts, encoded_append, List.length_append, length_encoded_cons]
    rfl
  rw [stray, text, Head.read_of_flat _ _ flat]
  simp only [Option.bind_eq_bind, Option.bind_some, List.head?_cons, Option.getD_some, next]
  rfl

/-- One lexeme that starts with a character below 128. -/
lemma scan_narrow (stands : head.At source front (first :: rest)) (starts : head.start = head.curr)
    (narrow : first.toNat < 128) :
    scan source head = some ((split first rest).1.scanned, head.read front (split first rest).1) := by
  have there : (head.past (front ++ [first])).At source (front ++ [first]) rest := stands.further head
  have begins : (head.past (front ++ [first])).start = (encoded front).length :=
    starts.trans stands.curr
  rw [scan, stands.advance_narrow narrow, Segment.split]
  simp only [Option.bind_eq_bind, Option.bind_some]
  by_cases blank : isBlank first = true
  · rw [if_pos blank, if_pos blank]
    by_cases newline : first = '\n'
    · subst newline
      rfl
    · have flat : (Segment.blank first).newlines = 0 :=
        List.count_singleton.trans (if_neg (by simpa using newline))
      rw [if_neg newline, Head.read_of_flat _ _ flat]
      rfl
  rw [if_neg blank, if_neg blank]
  have unbroken : first ≠ '\n' := by
    rintro rfl
    exact blank rfl
  by_cases quote : first = '"'
  · subst quote
    rw [if_pos rfl, if_pos rfl]
    exact string_quoted there begins
  rw [if_neg quote, if_neg quote]
  by_cases digit : first.isDigit = true
  · rw [if_pos digit, if_pos digit]
    exact number_numeral there digit begins
  rw [if_neg digit, if_neg digit]
  by_cases letter : startsName first = true
  · rw [if_pos letter, if_pos letter]
    exact identifier_word there unbroken begins
  rw [if_neg letter, if_neg letter]
  by_cases slashed : first = '/'
  · subst slashed
    rw [if_pos rfl, if_pos rfl]
    exact slash_slash there
  rw [if_neg slashed, if_neg slashed, symbol]
  cases extensible? first with
  | some kinds => exact either_operator there unbroken kinds.1 kinds.2
  | none =>
      cases single? first with
      | some kind =>
          have flat : (Segment.token kind [first] none).newlines = 0 :=
            List.count_singleton.trans (if_neg (by simpa using unbroken))
          simp only [Head.read_of_flat _ _ flat]
          rfl
      | none => exact stray_stray stands unbroken begins

/-- One lexeme that starts with another character. -/
lemma scan_wide (stands : head.At source front (first :: rest)) (starts : head.start = head.curr)
    (wide : 128 ≤ first.toNat) :
    scan source head = some ((split first rest).1.scanned, head.read front (split first rest).1) := by
  obtain ⟨seen, glimpse, read⟩ := stands.advance
  have wide' : 128 ≤ seen.toNat := by
    rcases glimpse with rfl | both
    · exact wide
    · exact both.2
  have ne : ∀ {c : Char}, 128 ≤ c.toNat → c ≠ '"' ∧ c ≠ '/' := fun wide =>
    ⟨ne_wide wide (by decide), ne_wide wide (by decide)⟩
  have cut : Segment.split first rest = (.stray first, rest) := by
    simp [Segment.split, symbol, isBlank_wide wide, ne wide, isDigit_wide wide, startsName_wide wide,
      extensible?_wide wide, single?_wide wide]
  have unbroken : first ≠ '\n' := ne_wide wide (by decide)
  rw [cut, scan, read]
  simp only [Option.bind_eq_bind, Option.bind_some, isBlank_wide wide', ne wide', isDigit_wide wide',
    startsName_wide wide', extensible?_wide wide', single?_wide wide', Bool.false_eq_true, if_false]
  exact stray_stray stands unbroken (starts.trans stands.curr)

/-- **One lexeme is one segment.**  Between characters the scanner reads the first segment of the text
ahead, and is between characters again. -/
theorem scan_split (stands : head.At source front (first :: rest)) (starts : head.start = head.curr) :
    scan source head = some ((split first rest).1.scanned, head.read front (split first rest).1) := by
  by_cases narrow : first.toNat < 128
  · exact scan_narrow stands starts narrow
  · exact scan_wide stands starts (Nat.le_of_not_lt narrow)

/-! ## Items and calls -/

/-- The items that are still to come. -/
def Ahead (source : List Char) (head : Head) (items : List Item) : Prop :=
  (∃ front ahead, head.At source front ahead ∧ items = Scan.itemsFrom head.line ahead) ∨
    size source < head.curr ∧ items = []

/-- What is read is longer than nothing. -/
lemma length_lt_of_text {segment : Segment} (full : segment.text ≠ []) (front : List Char) :
    (encoded front).length < (encoded (front ++ segment.text)).length := by
  obtain ⟨c, more, shape⟩ := List.exists_cons_of_ne_nil full
  have positive := Char.utf8Size_pos c
  rw [encoded_append, List.length_append, shape, length_encoded_cons]
  omega

lemma next_at {ahead : List Char} (stands : head.At source front ahead) : ∃ item after items,
    next source head = some (some item, after) ∧
      Scan.itemsFrom head.line ahead = item :: items ∧ Ahead source after items := by
  induction count : ahead.length using Nat.strong_induction_on generalizing front ahead head with
  | _ n ih =>
  subst count
  cases ahead with
  | nil =>
      have done : head.curr = size source := by
        rw [stands.size_eq, encoded_nil, List.length_nil, Nat.add_zero]
      refine ⟨_, { head with curr := head.curr + 1 }, [], ?_, by rw [Scan.itemsFrom], .inr ⟨?_, rfl⟩⟩
      · rw [next, if_neg (by omega), if_pos done]
      · exact done ▸ Nat.lt_succ_self _
  | cons first rest =>
      have begun : ({ head with start := head.curr } : Head).At source front (first :: rest) :=
        ⟨stands.whole, stands.curr⟩
      have scanned := scan_split begun rfl
      rcases cut : Segment.split first rest with ⟨segment, behind⟩
      have covered := Segment.text_append_split first rest
      rw [cut] at scanned covered
      rw [Scan.itemsFrom_of_split cut, next, if_pos stands.curr_lt, scanned]
      have there : (({ head with start := head.curr } : Head).read front segment).At source
          (front ++ segment.text) behind := ⟨by rw [List.append_assoc, covered, stands.whole], rfl⟩
      have more : Ahead source _ (Scan.itemsFrom (head.line + segment.newlines) behind) :=
        .inl ⟨_, _, there, rfl⟩
      have onward : segment.text ≠ [] := by
        obtain ⟨more, shape, -⟩ := Segment.covers_split first rest
        rw [cut] at shape
        simp [shape]
      -- what is skipped has no item, and the scan goes on behind it
      have skipped : ∃ item after items,
          (if head.curr < (({ head with start := head.curr } : Head).read front segment).curr then
            next source (({ head with start := head.curr } : Head).read front segment) else none) =
              some (some item, after) ∧
            Scan.itemsFrom (head.line + segment.newlines) behind = item :: items ∧
            Ahead source after items := by
        rw [if_pos (stands.curr ▸ length_lt_of_text onward front)]
        exact ih _ (Scan.length_lt_of_split cut) there rfl
      cases segment with
      | blank c => exact skipped
      | comment body => exact skipped
      | token kind lexeme literal =>
          have slice := there.slice front rfl stands.curr
          refine ⟨_, _, _, ?_, rfl, more⟩
          simp only [Segment.scanned, Head.read_start]
          rw [slice]
          rfl
      | stray c => exact ⟨_, _, _, rfl, rfl, more⟩
      | unclosed body => exact ⟨_, _, _, rfl, rfl, more⟩

lemma next_ahead {items : List Item} (ahead : Ahead source head items) : ∃ after,
    next source head = some (items.head?, after) ∧ Ahead source after items.tail := by
  rcases ahead with ⟨front, ahead, h, rfl⟩ | ⟨done, rfl⟩
  · obtain ⟨item, after, items, given, same, more⟩ := next_at h
    exact ⟨after, by rw [given, same]; rfl, by rw [same]; exact more⟩
  · refine ⟨head, ?_, .inr ⟨done, rfl⟩⟩
    rw [next, if_neg (by omega), if_neg (by omega)]
    rfl

/-- **Calls give the items ahead, one after another, and nothing more behind them.** -/
lemma calls_ahead {items : List Item} (ahead : Ahead source head items) (n : Nat) :
    calls source n head = some ((List.range n).map (items[·]?)) := by
  induction n generalizing head items with
  | zero => rfl
  | succ n ih =>
      obtain ⟨after, given, more⟩ := next_ahead ahead
      rw [calls, given]
      simp only [Option.bind_eq_bind, Option.bind_some]
      rw [ih more, List.range_succ_eq_map]
      simp [List.head?_eq_getElem?]

/-- **The scanner on the bytes of a source gives its items**, and nothing more behind them. -/
lemma calls_items (source : String) (n : Nat) :
    calls source.toList n ⟨0, 0, 1⟩ = some ((List.range n).map ((Scan.items source)[·]?)) :=
  calls_ahead (.inl ⟨[], source.toList, ⟨rfl, rfl⟩, rfl⟩) n

end ByteScan

/-- **The scanner is the lexer that takes the longest lexeme.**  From every source it gives a list of
items, and a list is what it gives exactly if the rules read the source as that list.  The scanner on the
bytes of the source gives that list too. -/
theorem Cursor.yields_iff_lexes (source : String) :
    (start source).Yields (Scan.items source) ∧
      (∀ items, (start source).Yields items ↔ Lexes 1 source.toList items) ∧
      (encoded source.toList).toByteArray = source.toUTF8 ∧
      ∀ n, ByteScan.calls source.toList n ⟨0, 0, 1⟩ =
        some ((List.range n).map ((Scan.items source)[·]?)) := by
  have all : (start source).Yields (Scan.items source) := yields_ahead (start source)
  refine ⟨all, fun items => ?_, (toUTF8_eq_encoded source).symm, ByteScan.calls_items source⟩
  rw [Scan.lexes_iff]
  exact ⟨fun yields => all.functional yields, fun same => same ▸ all⟩

/-- **A scan loses nothing and invents nothing.**  Every source is cut into segments that fit, without a
gap and without an overlap; its items are those of the segments, each on the line on which its segment
ends, and behind them the only end mark.  A scan yields these items and then nothing more; and so does
the scanner on the bytes of the source, however often it is called, without a failed access. -/
theorem Scan.items_partition (source : String) :
    Partitioned [] source.toList (items source) ∧
      (items source).Pairwise (fun first second => Item.line first ≤ Item.line second) ∧
      (∃ front line, items source = front ++ [.ok (.endMark line)] ∧
        ∀ token, .ok token ∈ front → token.kind ≠ .endOfInput) ∧
      (Cursor.start source).Yields (items source) ∧
      (encoded source.toList).toByteArray = source.toUTF8 ∧
      ∀ n, ByteScan.calls source.toList n ⟨0, 0, 1⟩ =
        some ((List.range n).map ((items source)[·]?)) := by
  have whole := (lexes_itemsFrom 1 source.toList).partitioned [] rfl
  refine ⟨whole, ?_, ?_, Cursor.yields_ahead (.start source), (toUTF8_eq_encoded source).symm,
    ByteScan.calls_items source⟩
  · obtain ⟨segments, covered, fit, same⟩ := whole
    rw [items, same, List.pairwise_append]
    refine ⟨Segment.given_lines [] segments, List.pairwise_singleton _ _, fun first mem last found => ?_⟩
    rw [List.mem_singleton.mp found, ← covered]
    exact (Segment.line_of_mem mem).2
  · obtain ⟨segments, covered, fit, same⟩ := whole
    exact ⟨_, _, same, fun token => Segment.given_kind fit⟩

end LoxLang
