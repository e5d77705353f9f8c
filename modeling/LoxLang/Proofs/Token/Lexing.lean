import Mathlib
import LoxLang.Proofs.Token.Munch

/-!
# A scan yields the items of the lexer

The rules of `Lexes` say what the items of a text are, `Scan.items` collects what the segments give,
and a `Cursor` gives one item per call.  All three agree on every source.

* `Scan.itemsFrom_of_split` — the items of a text from its first segment.
* **`Scan.lexes_iff`** — the rules admit the collected items and no others.
* `Cursor.Yields` — all items that a scan gives, one call after another; `Cursor.yields_ahead`, they are
  the collected ones.
-/

namespace LoxLang

namespace Scan

/-- The items of a text: what its first segment gives, and those of the text behind it. -/
lemma itemsFrom_of_split {line : Nat} {first : Char} {rest behind : List Char} {segment : Segment}
    (cut : Segment.split first rest = (segment, behind)) :
    itemsFrom line (first :: rest) = (segment.item? (line + segment.newlines)).toList ++
      itemsFrom (line + segment.newlines) behind := by
  rw [itemsFrom, cut]
  cases given : segment.item? (line + segment.newlines) with
  | none => simp
  | some item => simp

/-- The text behind a segment is shorter. -/
lemma length_lt_of_split {first : Char} {rest behind : List Char} {segment : Segment}
    (cut : Segment.split first rest = (segment, behind)) :
    behind.length < (first :: rest).length := by
  have shorter := Segment.length_split_le first rest
  rw [cut] at shorter
  exact Nat.lt_succ_of_le shorter

lemma newlines_remark {body : List Char} (inside : ∀ c ∈ body, c ≠ '\n') :
    (Segment.comment body).newlines = 0 := by
  refine List.count_eq_zero.mpr fun mem => ?_
  simp only [Segment.text, List.mem_cons] at mem
  rcases mem with slash | slash | mem
  · cases slash
  · cases slash
  · exact inside _ mem rfl

lemma newlines_unclosed (body : List Char) :
    (Segment.unclosed body).newlines = body.count '\n' := by
  rw [Segment.newlines, Segment.text, List.count_cons_of_ne (by decide)]

end Scan

/-! ## The rules admit nothing else -/

/-- **A reading by the rules gives the collected items.** -/
theorem Lexes.eq_itemsFrom {line : Nat} {text : List Char} {items : List Item}
    (reading : Lexes line text items) : Scan.itemsFrom line text = items := by
  induction reading with
  | finish line => rw [Scan.itemsFrom]
  | @blank line c behind items skipped _ ih =>
      rw [Scan.itemsFrom_of_split (Segment.split_blank behind skipped), ← ih]
      by_cases newline : c = '\n' <;> simp [Segment.item?, Segment.newlines, Segment.text, newline]
  | remark inside stops _ ih =>
      rw [List.cons_append, Scan.itemsFrom_of_split (Segment.split_remark inside stops),
        Scan.newlines_remark inside]
      exact ih
  | lexeme unremarked longest _ ih =>
      obtain ⟨first, rest, rfl, cut⟩ := Segment.split_longest unremarked longest
      rw [Scan.itemsFrom_of_split cut, ← ih]
      rfl
  | unterminated inside =>
      rw [Scan.itemsFrom_of_split (Segment.split_unclosed inside), Scan.newlines_unclosed,
        Scan.itemsFrom]
      rfl
  | @stray line c behind items visible unquoted none_ _ ih =>
      have unbroken : c ≠ '\n' := fun newline => visible (.inr (.inr (.inr newline)))
      rw [Scan.itemsFrom_of_split (Segment.split_stray visible unquoted none_), ← ih]
      simp [Segment.item?, Segment.newlines, Segment.text, unbroken]

/-! ## The rules always apply -/

/-- The characters up to the next line break, and what is behind them. -/
lemma exists_remark {text : List Char} (remark : IsRemark text) :
    ∃ body behind, text = '/' :: '/' :: body ++ behind ∧ (∀ c ∈ body, c ≠ '\n') ∧
      (behind = [] ∨ behind.head? = some '\n') := by
  obtain ⟨rest, rfl⟩ := remark
  refine ⟨rest.takeWhile (· != '\n'), rest.dropWhile (· != '\n'), ?_, fun c mem => ?_, ?_⟩
  · simp [List.takeWhile_append_dropWhile]
  · simpa using List.mem_takeWhile_imp mem
  · cases left : rest.dropWhile (· != '\n') with
    | nil => exact .inl rfl
    | cons c behind =>
        have stop := List.head?_dropWhile_not (· != '\n') rest
        rw [left] at stop
        exact .inr (by simpa using stop)

/-- A quote with another one behind it starts a lexeme. -/
lemma exists_string {rest : List Char} (closed : '"' ∈ rest) :
    ∃ lexeme kind literal, Lexeme lexeme kind literal ∧ lexeme <+: '"' :: rest := by
  obtain ⟨body, behind, rfl, outside⟩ := List.eq_append_cons_of_mem closed
  have inside : ∀ c ∈ body, c ≠ '"' := fun c mem same => outside (same ▸ mem)
  exact ⟨_, _, _, .string inside, behind, by simp⟩

/-- **Every text has a reading by the rules, the collected items.** -/
theorem Scan.lexes_itemsFrom (line : Nat) (text : List Char) :
    Lexes line text (Scan.itemsFrom line text) := by
  induction size : text.length using Nat.strong_induction_on generalizing line text with
  | _ n ih =>
  subst size
  cases text with
  | nil => rw [Scan.itemsFrom]; exact .finish line
  | cons first rest =>
  by_cases blank : IsBlank first
  · have more := ih _ (Nat.lt_succ_self _) (if first = '\n' then line + 1 else line) rest rfl
    have reading := Lexes.blank blank more
    rwa [reading.eq_itemsFrom]
  by_cases remark : IsRemark (first :: rest)
  · obtain ⟨body, behind, shape, inside, stops⟩ := exists_remark remark
    have shorter : behind.length < (first :: rest).length := by rw [shape]; simp; omega
    have reading := Lexes.remark inside stops (ih _ shorter line behind rfl)
    rw [shape, reading.eq_itemsFrom]
    exact reading
  by_cases front : ∃ lexeme kind literal, Lexeme lexeme kind literal ∧ lexeme <+: first :: rest
  · obtain ⟨lexeme, kind, literal, entry, front⟩ := front
    obtain ⟨lexeme, kind, literal, behind, longest⟩ := Longest.exists_of_front entry front
    obtain ⟨first, rest, shape, cut⟩ := Segment.split_longest remark longest
    have shorter := shape ▸ Scan.length_lt_of_split cut
    have reading := Lexes.lexeme remark longest
      (ih _ shorter (line + lexeme.count '\n') behind rfl)
    rwa [reading.eq_itemsFrom]
  · have none_ : ∀ {lexeme kind literal}, Lexeme lexeme kind literal → ¬lexeme <+: first :: rest :=
      fun entry prefix_ => front ⟨_, _, _, entry, prefix_⟩
    by_cases quote : first = '"'
    · subst quote
      have inside : ∀ c ∈ rest, c ≠ '"' := fun c mem same => front (exists_string (same ▸ mem))
      have reading := @Lexes.unterminated line rest inside
      rwa [reading.eq_itemsFrom]
    · have more := ih _ (Nat.lt_succ_self _) line rest rfl
      have reading := Lexes.stray blank quote none_ more
      rwa [reading.eq_itemsFrom]

/-- **The rules admit the collected items and no others.** -/
theorem Scan.lexes_iff {line : Nat} {text : List Char} {items : List Item} :
    Lexes line text items ↔ Scan.itemsFrom line text = items :=
  ⟨Lexes.eq_itemsFrom, fun same => same ▸ Scan.lexes_itemsFrom line text⟩

/-! ## One call after another -/

namespace Cursor

/-- **All items that a scan gives from now on**, until a call gives none. -/
inductive Yields : Cursor → List Item → Prop where
  | stop {cursor : Cursor} (none_ : cursor.next? = none) : Yields cursor []
  | item {cursor behind : Cursor} {item : Item} {items : List Item}
      (given : cursor.next? = some (item, behind)) (more : Yields behind items) :
      Yields cursor (item :: items)

/-- The items that are collected from where a scan stands. -/
def ahead (cursor : Cursor) : List Item :=
  if cursor.finished then [] else Scan.itemsFrom cursor.line cursor.rest

/-- One call gives the first item ahead, and makes progress. -/
lemma step_ahead (line : Nat) (text : List Char) :
    Scan.itemsFrom line text = (step line text).1 :: (step line text).2.ahead ∧
      ((step line text).2.finished = true ∨ (step line text).2.rest.length < text.length) := by
  induction line, text using step.induct with
  | case1 line => rw [step, Scan.itemsFrom]; simp [ahead]
  | case2 line first rest segment behindLine item given =>
      rw [step, Scan.itemsFrom]
      simp only [segment, behindLine] at given
      simp only [given]
      exact ⟨rfl, .inr (Nat.lt_succ_of_le (Segment.length_split_le first rest))⟩
  | case3 line first rest segment behindLine given ih =>
      rw [step, Scan.itemsFrom]
      simp only [segment, behindLine] at given ih
      simp only [given]
      refine ⟨ih.1, ih.2.imp_right fun shorter => ?_⟩
      exact shorter.trans (Nat.lt_succ_of_le (Segment.length_split_le first rest))

/-- The collected items are what a scan gives. -/
lemma yields_ahead (cursor : Cursor) : cursor.Yields cursor.ahead := by
  induction size : cursor.rest.length using Nat.strong_induction_on generalizing cursor with
  | _ n ih =>
  subst size
  rcases finished : cursor.finished with _ | _
  · obtain ⟨items, progress⟩ := step_ahead cursor.line cursor.rest
    have given : cursor.next? = some (step cursor.line cursor.rest) := by simp [next?, finished]
    have shape : cursor.ahead = (step cursor.line cursor.rest).1 ::
        (step cursor.line cursor.rest).2.ahead := by simp [ahead, finished, items]
    rw [shape]
    refine .item given ?_
    rcases progress with finished | shorter
    · rw [ahead, finished]
      exact .stop (by simp [next?, finished])
    · exact ih _ shorter _ rfl
  · have none_ : cursor.next? = none := by simp [next?, finished]
    simpa [ahead, finished] using Yields.stop none_

/-- A scan gives one list of items. -/
lemma Yields.functional {cursor : Cursor} {items others : List Item} (first : cursor.Yields items)
    (second : cursor.Yields others) : items = others := by
  induction first generalizing others with
  | stop none_ =>
      cases second with
      | stop _ => rfl
      | item given _ => rw [none_] at given; cases given
  | item given _ ih =>
      cases second with
      | stop none_ => rw [none_] at given; cases given
      | item given' more =>
          obtain ⟨rfl, rfl⟩ := Prod.mk.inj (Option.some.inj (given.symm.trans given'))
          rw [ih more]

end Cursor

end LoxLang
