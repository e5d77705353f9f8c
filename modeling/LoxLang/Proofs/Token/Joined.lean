import Mathlib
import LoxLang.Proofs.Program.Revision
import LoxLang.Proofs.Token.Lexing

/-!
# The tokens of joined texts

A line end in front of a text stops every lexeme but an open quote.  So a text without one keeps its
tokens and its errors when more lines follow it, and those of the lines are what they would be on their
own, only further down.

* `Revision.down` — the revision that puts tokens some lines lower.
* `Segment.split_ahead` — a segment is not changed by lines behind it, unless it is an open quote.
* `Scan.itemsFrom_down` — on a later line a text has the same items, further down.
* `Scan.exists_items`, `Scan.exists_tokens` — the items of a text with more lines behind it.
* **`Scan.items_lines`** — two texts on lines of their own have the items of both.
-/

namespace LoxLang

/-- Everything some lines lower. -/
def Revision.down (lines : Nat) : Revision := ⟨(· + lines), id⟩

/-! ## One segment -/

/-- A line end that stops a run keeps what follows out of it. -/
lemma takeWhile_ahead {p : Char → Bool} (stops : p '\n' = false) (run more : List Char) :
    (run ++ '\n' :: more).takeWhile p = run.takeWhile p ∧
      (run ++ '\n' :: more).dropWhile p = run.dropWhile p ++ '\n' :: more := by
  induction run with
  | nil => simp [stops]
  | cons c run ih =>
      cases inside : p c with
      | false => simp [inside]
      | true => simp [inside, ih]

/-- Neither does more text where the run ends before. -/
lemma takeWhile_stopped {p : Char → Bool} {run after : List Char} {stop : Char}
    (left : run.dropWhile p = stop :: after) (more : List Char) :
    (run ++ more).takeWhile p = run.takeWhile p ∧
      (run ++ more).dropWhile p = stop :: after ++ more := by
  induction run with
  | nil => cases left
  | cons c run ih =>
      cases inside : p c with
      | false =>
          rw [List.dropWhile_cons_of_neg (by simp [inside])] at left
          cases left
          simp [inside]
      | true =>
          rw [List.dropWhile_cons_of_pos inside] at left
          simpa [inside] using ih left

namespace Segment

variable (first : Char) (rest more : List Char)

lemma quoted_ahead (closed : ∀ body, (quoted rest).1 ≠ unclosed body) :
    quoted (rest ++ '\n' :: more) = ((quoted rest).1, (quoted rest).2 ++ '\n' :: more) := by
  unfold quoted at closed ⊢
  cases left : rest.dropWhile (· != '"') with
  | nil =>
      rw [left] at closed
      exact absurd rfl (closed _)
  | cons quote after =>
      obtain ⟨taken, left'⟩ := takeWhile_stopped left ('\n' :: more)
      simp only [taken, left', List.cons_append]

lemma numeral_ahead : numeral first (rest ++ '\n' :: more) =
    ((numeral first rest).1, (numeral first rest).2 ++ '\n' :: more) := by
  obtain ⟨taken, left⟩ := takeWhile_ahead (p := Char.isDigit) rfl rest more
  unfold numeral
  rw [taken, left]
  rcases rest.dropWhile Char.isDigit with _ | ⟨point, _ | ⟨digit, after⟩⟩
  · simp
  · by_cases isPoint : point = '.'
    · subst isPoint; rfl
    · simp [isPoint]
  · by_cases isPoint : point = '.'
    · subst isPoint
      obtain ⟨taken, left⟩ := takeWhile_ahead (p := Char.isDigit) rfl after more
      simp only [List.cons_append, taken, left]
      split_ifs <;> rfl
    · simp [isPoint]

lemma word_ahead : word first (rest ++ '\n' :: more) =
    ((word first rest).1, (word first rest).2 ++ '\n' :: more) := by
  obtain ⟨taken, left⟩ := takeWhile_ahead (p := continuesName) (by decide) rest more
  simp only [word, taken, left]

lemma symbol_ahead : symbol first (rest ++ '\n' :: more) =
    ((symbol first rest).1, (symbol first rest).2 ++ '\n' :: more) := by
  unfold symbol
  cases extensible? first with
  | some kinds =>
      cases rest with
      | nil => rfl
      | cons next rest =>
          by_cases longer : next = '='
          · subst longer; rfl
          · simp [operator, longer]
  | none => cases single? first <;> rfl

lemma slash_ahead : slash (rest ++ '\n' :: more) =
    ((slash rest).1, (slash rest).2 ++ '\n' :: more) := by
  cases rest with
  | nil => rfl
  | cons next rest =>
      by_cases second : next = '/'
      · subst second
        obtain ⟨taken, left⟩ := takeWhile_ahead (p := (· != '\n')) rfl rest more
        simp only [slash, remark, List.cons_append, taken, left]
      · simpa [slash, second] using symbol_ahead '/' (next :: rest) more

/-- **Lines behind a segment do not change it**, unless it is an open quote. -/
theorem split_ahead (closed : ∀ body, (split first rest).1 ≠ unclosed body) :
    split first (rest ++ '\n' :: more) =
      ((split first rest).1, (split first rest).2 ++ '\n' :: more) := by
  unfold split at closed ⊢
  split_ifs at closed ⊢
  · rfl
  · exact quoted_ahead rest more closed
  · exact numeral_ahead first rest more
  · exact word_ahead first rest more
  · exact slash_ahead rest more
  · exact symbol_ahead first rest more

/-- No segment is the end mark. -/
lemma kind_ne_end {kind : Kind} {lexeme : List Char} {literal : Option Literal}
    (cut : (split first rest).1 = token kind lexeme literal) : kind ≠ .endOfInput := by
  have single : ∀ {c kind}, single? c = some kind → kind ≠ .endOfInput := by
    intro c kind found same
    subst same
    unfold single? at found
    split at found <;> cases found
  have extensible : ∀ {c kinds}, extensible? c = some kinds →
      kinds.1 ≠ .endOfInput ∧ kinds.2 ≠ .endOfInput := by
    intro c kinds found
    unfold extensible? at found
    split at found <;> cases found <;> decide
  have symbols : ∀ {c rest}, (symbol c rest).1 = token kind lexeme literal → kind ≠ .endOfInput := by
    intro c rest cut
    unfold symbol at cut
    split at cut
    · next kinds found =>
        unfold operator at cut
        split at cut <;> cases cut
        · exact (extensible found).1
        · exact (extensible found).2
    · split at cut <;> cases cut
      next found => exact single found
  unfold split at cut
  split_ifs at cut
  · unfold quoted at cut
    dsimp only at cut
    split at cut <;> cases cut
    decide
  · unfold numeral at cut
    dsimp only at cut
    split at cut
    · split_ifs at cut <;> cases cut <;> decide
    · cases cut; decide
  · unfold word at cut
    dsimp only at cut
    split at cut <;> cases cut <;> exact fun same => by cases same
  · unfold slash at cut
    split at cut
    · cases cut
    · exact symbols cut
  · exact symbols cut

/-- The line ends of a text are those of its first segment and those behind it. -/
lemma count_of_split {segment : Segment} {behind : List Char}
    (cut : split first rest = (segment, behind)) :
    (first :: rest).count '\n' = segment.newlines + behind.count '\n' := by
  have whole := text_append_split first rest
  rw [cut] at whole
  rw [← whole, List.count_append, newlines]

end Segment

/-! ## Items further down -/

/-- An item on a revised line. -/
def Item.revised (r : Revision) : Item → Item
  | .ok token => .ok (token.revised r)
  | .error fault => .error { fault with line := r.line fault.line }

lemma Segment.item?_down (segment : Segment) (line lines : Nat) :
    segment.item? (line + lines) = (segment.item? line).map (Item.revised (.down lines)) := by
  cases segment <;> rfl

namespace Scan

/-- **On a later line a text has the same items**, as much further down. -/
theorem itemsFrom_down (lines line : Nat) (text : List Char) :
    itemsFrom (line + lines) text = (itemsFrom line text).map (Item.revised (.down lines)) := by
  induction size : text.length using Nat.strong_induction_on generalizing line text with
  | _ n ih =>
  subst size
  cases text with
  | nil => rw [itemsFrom, itemsFrom]; rfl
  | cons first rest =>
  rcases cut : Segment.split first rest with ⟨segment, behind⟩
  have shift : line + lines + segment.newlines = line + segment.newlines + lines := by omega
  rw [itemsFrom_of_split cut, itemsFrom_of_split cut, shift, Segment.item?_down,
    ih _ (length_lt_of_split cut) _ _ rfl, List.map_append, Option.toList_map]

/-- No quote is left open in a text with these items. -/
def Closed (items : List Item) : Prop := ∀ fault ∈ faults items, fault.error ≠ .unterminatedString

/-- **A text without an open quote keeps its items when more lines follow**, whatever they are, and the
lines have items of their own. -/
theorem exists_items {line : Nat} {text : List Char} (closed : Closed (itemsFrom line text)) :
    ∃ front : List Item, (∀ token, .ok token ∈ front → token.kind ≠ .endOfInput) ∧
      itemsFrom line text = front ++ [.ok (.endMark (line + text.count '\n'))] ∧
      ∀ more, itemsFrom line (text ++ '\n' :: more) =
        front ++ itemsFrom (line + text.count '\n' + 1) more := by
  induction size : text.length using Nat.strong_induction_on generalizing line text with
  | _ n ih =>
  subst size
  cases text with
  | nil =>
      refine ⟨[], by simp, by rw [itemsFrom]; rfl, fun more => ?_⟩
      exact itemsFrom_of_split (Segment.split_blank more (.inr (.inr (.inr rfl))))
  | cons first rest =>
  rcases cut : Segment.split first rest with ⟨segment, behind⟩
  rw [itemsFrom_of_split cut, Closed, faults, List.filterMap_append, List.forall_mem_append] at closed
  have ended : ∀ body, (Segment.split first rest).1 ≠ .unclosed body := by
    intro body open_
    obtain rfl : segment = .unclosed body := (congrArg Prod.fst cut).symm.trans open_
    exact closed.1 _ List.mem_cons_self rfl
  obtain ⟨front, inner, whole, joined⟩ := ih _ (length_lt_of_split cut) closed.2 rfl
  have count := Segment.count_of_split first rest cut
  refine ⟨(segment.item? (line + segment.newlines)).toList ++ front, fun token mem => ?_, ?_,
    fun more => ?_⟩
  · rcases List.mem_append.mp mem with here | later
    · cases segment with
      | token kind lexeme literal =>
          cases List.mem_singleton.mp here
          exact Segment.kind_ne_end first rest (congrArg Prod.fst cut)
      | stray c => cases List.mem_singleton.mp here
      | unclosed body => cases List.mem_singleton.mp here
      | _ => cases here
    · exact inner token later
  · rw [itemsFrom_of_split cut, whole, List.append_assoc, count, Nat.add_assoc]
  · have ahead := Segment.split_ahead first rest more ended
    rw [cut] at ahead
    rw [List.cons_append, itemsFrom_of_split ahead, joined, List.append_assoc, count,
      Nat.add_assoc line]

/-- Items without errors are tokens. -/
lemma exists_map_ok {items : List Item} (sound : faults items = []) :
    ∃ tokens : List Token, items = tokens.map .ok := by
  induction items with
  | nil => exact ⟨[], rfl⟩
  | cons item items ih =>
      cases item with
      | error fault => cases sound
      | ok token =>
          obtain ⟨tokens, rfl⟩ := ih sound
          exact ⟨token :: tokens, rfl⟩

/-- Tokens in front of other items. -/
lemma tokens_append_map (front : List Token) (items : List Item) :
    tokens (front.map .ok ++ items) = front ++ tokens items ∧
      faults (front.map .ok ++ items) = faults items := by
  rw [tokens, faults, List.filterMap_append, List.filterMap_append]
  induction front with
  | nil => exact ⟨rfl, rfl⟩
  | cons token front ih => exact ⟨congrArg (token :: ·) ih.1, ih.2⟩

/-- **A text without lexical errors keeps its tokens when more lines follow.** -/
theorem exists_tokens {line : Nat} {text : List Char} (sound : faults (itemsFrom line text) = []) :
    ∃ tokens : List Token, (∀ token ∈ tokens, token.kind ≠ .endOfInput) ∧
      itemsFrom line text = tokens.map .ok ++ [.ok (.endMark (line + text.count '\n'))] ∧
      ∀ more, itemsFrom line (text ++ '\n' :: more) =
        tokens.map .ok ++ itemsFrom (line + text.count '\n' + 1) more := by
  have closed : Closed (itemsFrom line text) := by simp [Closed, sound]
  obtain ⟨front, inner, whole, joined⟩ := exists_items closed
  rw [whole, faults, List.filterMap_append, List.append_eq_nil_iff] at sound
  obtain ⟨tokens, rfl⟩ := exists_map_ok sound.1
  exact ⟨tokens, fun token mem => inner token (List.mem_map_of_mem mem), whole, joined⟩

/-! ## Sources -/

/-- How many lines a source takes up, with the line end behind it. -/
def lines (source : String) : Nat := source.toList.count '\n' + 1

/-- **The items of two joined sources** are those of the first without its end mark, and those of the
second as many lines lower as the first takes up. -/
theorem items_joined {first : String} (sound : faults (items first) = []) (second : String) :
    ∃ tokens : List Token, (∀ token ∈ tokens, token.kind ≠ .endOfInput) ∧
      items first = tokens.map .ok ++ [.ok (.endMark (lines first))] ∧
      items (first ++ "\n" ++ second) =
        tokens.map .ok ++ (items second).map (Item.revised (.down (lines first))) := by
  obtain ⟨tokens, inner, whole, joined⟩ := exists_tokens sound
  refine ⟨tokens, inner, ?_, ?_⟩
  · rw [items, whole, lines, Nat.add_comm 1]
  · have text : (first ++ "\n" ++ second).toList = first.toList ++ '\n' :: second.toList := by simp
    rw [items, text, joined, items, ← itemsFrom_down, lines]
    congr 2

/-- Empty lines in front of a source only put it further down. -/
lemma items_below (lines : Nat) (source : String) :
    items (String.ofList (List.replicate lines '\n') ++ source) =
      (items source).map (Item.revised (.down lines)) := by
  have below : ∀ line, itemsFrom line (List.replicate lines '\n' ++ source.toList) =
      itemsFrom (line + lines) source.toList := by
    induction lines with
    | zero => exact fun _ => rfl
    | succ lines ih =>
        intro line
        rw [List.replicate_succ, List.cons_append,
          itemsFrom_of_split (Segment.split_blank _ (.inr (.inr (.inr rfl))))]
        have next : line + (Segment.blank '\n').newlines + lines = line + (lines + 1) := by
          have one : (Segment.blank '\n').newlines = 1 := rfl
          omega
        exact (ih _).trans (by rw [next])
  rw [items, items, ← itemsFrom_down, ← below]
  simp

/-- **Scanning goes line by line.**  If no quote is left open in a source, then whatever other errors
there are in it and whatever source follows on the next line, the items of both together are those of
the first without its end mark, and those of the second as many lines lower as there are line ends in
front of it. -/
theorem items_lines {first : String} (closed : Closed (items first)) (second : String) :
    let newlines := first.toList.count '\n'
    items first = (items first).dropLast ++ [.ok (.endMark (1 + newlines))] ∧
      items (first ++ "\n" ++ second) =
        (items first).dropLast ++ (items second).map (Item.revised (.down (newlines + 1))) := by
  intro newlines
  obtain ⟨front, -, whole, joined⟩ := exists_items closed
  have text : (first ++ "\n" ++ second).toList = first.toList ++ '\n' :: second.toList := by simp
  have before : (items first).dropLast = front := by rw [items, whole, List.dropLast_concat]
  rw [before]
  refine ⟨whole, ?_⟩
  rw [items, text, joined, items, ← itemsFrom_down, Nat.add_assoc]

/-- The first source ends in half an operator behind a stray character, and the second one, which starts
with the other half, leaves a quote open. -/
theorem items_lines_halves :
    Closed (items "1.\n@ !") ∧
      items ("1.\n@ !" ++ "\n" ++ "= \"") =
        (items "1.\n@ !").dropLast ++ (items "= \"").map (Item.revised (.down 2)) := by
  have closed : Closed (items "1.\n@ !") := by
    have errors : (faults (items "1.\n@ !")).map LexicalFault.error = [.unexpectedCharacter] := by
      decide +kernel
    intro fault mem same
    have known := List.mem_map_of_mem (f := LexicalFault.error) mem
    rw [errors, same] at known
    simp at known
  exact ⟨closed, (items_lines closed _).2⟩

end Scan

end LoxLang
