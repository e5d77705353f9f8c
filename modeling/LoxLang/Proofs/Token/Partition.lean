import Mathlib
import LoxLang.Proofs.Token.Lexing

/-!
# The segments of a source

A source is cut into segments without a gap and without an overlap, and each of them is what it is
called.  What a scan gives is read off the segments one by one: nothing for what is skipped, and for the
others an item with the line on which their text ends.

* `Segment.Fits` — what a segment must be, in front of the text behind it.
* `Segment.given` — the items of segments in a row, with lines counted from the start of the source.
* `Segment.given_lines`, `Segment.given_kind` — lines never decrease, and no item is an end mark.
* **`Lexes.partitioned`** — a reading by the rules consists of such segments.
-/

namespace LoxLang

/-- The line of an item. -/
def Item.line : Item → Nat
  | .ok token => token.line
  | .error fault => fault.line

/-- No lexeme is an end mark, and none is empty. -/
lemma Lexeme.proper {lexeme : List Char} {kind : Kind} {literal : Option Literal}
    (entry : Lexeme lexeme kind literal) : kind ≠ .endOfInput ∧ lexeme ≠ [] := by
  cases entry with
  | @symbol kind text listed spelled =>
      have table : ∀ kind ∈ Kind.symbols, kind ≠ .endOfInput ∧ kind.spelling? ≠ some "" := by decide
      refine ⟨(table kind listed).1, fun empty => (table kind listed).2 ?_⟩
      rw [spelled, String.toList_eq_nil_iff.mp empty]
  | whole run => exact ⟨Kind.noConfusion, run.1⟩
  | fractional => exact ⟨Kind.noConfusion, by simp⟩
  | keyword word => exact ⟨Kind.noConfusion, by cases word <;> decide⟩
  | name run =>
      obtain ⟨first, found, -⟩ := run.2
      exact ⟨Kind.noConfusion, fun empty => by simp [empty] at found⟩
  | string => exact ⟨Kind.noConfusion, by simp⟩

namespace Segment

/-- A segment is what it is called, with `behind` after it: a comment goes up to the line break or the
end of the input, a stray character is a single one that starts nothing, and what stands behind a quote
without a second one is all the rest. -/
def Fits (behind : List Char) : Segment → Prop
  | blank c => IsBlank c
  | comment body => (∀ c ∈ body, c ≠ '\n') ∧ (behind = [] ∨ behind.head? = some '\n')
  | token kind lexeme literal => Lexeme lexeme kind literal
  | stray c => ¬IsBlank c ∧ c ≠ '"' ∧
      ∀ {lexeme kind literal}, Lexeme lexeme kind literal → ¬lexeme <+: c :: behind
  | unclosed body => (∀ c ∈ body, c ≠ '"') ∧ behind = []

/-- The text of segments in a row. -/
def texts (segments : List Segment) : List Char := segments.flatMap text

/-- All segments fit. -/
def AllFit : List Segment → Prop
  | [] => True
  | segment :: others => segment.Fits (texts others) ∧ AllFit others

/-- The line on which a text ends that starts a source. -/
def lineAfter (text : List Char) : Nat := 1 + text.count '\n'

/-- The items of segments that stand behind `front`, with the lines on which they end. -/
def given (front : List Char) : List Segment → List Item
  | [] => []
  | segment :: others =>
    (segment.item? (lineAfter (front ++ segment.text))).toList ++ given (front ++ segment.text) others

lemma lineAfter_append (front more : List Char) :
    lineAfter (front ++ more) = lineAfter front + more.count '\n' := by
  rw [lineAfter, lineAfter, List.count_append, Nat.add_assoc]

@[simp]
lemma texts_cons (segment : Segment) (others : List Segment) :
    texts (segment :: others) = segment.text ++ texts others := by
  rw [texts, List.flatMap_cons, texts]

/-! ## Lines and kinds -/

lemma line_of_item? {segment : Segment} {line : Nat} {item : Item}
    (found : segment.item? line = some item) : Item.line item = line := by
  cases segment with
  | blank c => cases found
  | comment body => cases found
  | token kind lexeme literal => cases found; rfl
  | stray c => cases found; rfl
  | unclosed body => cases found; rfl

/-- Items stand on lines of the segments they are from. -/
lemma line_of_mem {front : List Char} {segments : List Segment} {item : Item}
    (found : item ∈ given front segments) :
    lineAfter front ≤ Item.line item ∧ Item.line item ≤ lineAfter (front ++ texts segments) := by
  induction segments generalizing front with
  | nil => cases found
  | cons segment others ih =>
      have here : lineAfter front ≤ lineAfter (front ++ segment.text) := by
        rw [lineAfter_append]
        exact Nat.le_add_right _ _
      have there : lineAfter (front ++ segment.text) ≤
          lineAfter (front ++ texts (segment :: others)) := by
        rw [texts_cons, ← List.append_assoc, lineAfter_append _ (texts others)]
        exact Nat.le_add_right _ _
      rw [given, List.mem_append, Option.mem_toList] at found
      rcases found with first | later
      · rw [line_of_item? first]
        exact ⟨here, there⟩
      · have between := ih later
        rw [List.append_assoc, ← texts_cons] at between
        exact ⟨here.trans between.1, between.2⟩

/-- **Lines never decrease.** -/
lemma given_lines (front : List Char) (segments : List Segment) :
    (given front segments).Pairwise fun first second => Item.line first ≤ Item.line second := by
  induction segments generalizing front with
  | nil => exact .nil
  | cons segment others ih =>
      rw [given, List.pairwise_append]
      refine ⟨?_, ih _, fun first mem second later => ?_⟩
      · cases segment.item? (lineAfter (front ++ segment.text)) with
        | none => exact .nil
        | some item => exact List.pairwise_singleton _ _
      · rw [line_of_item? (Option.mem_toList.mp mem)]
        exact (line_of_mem later).1

lemma kind_of_item? {segment : Segment} {behind : List Char} (fits : segment.Fits behind) {line : Nat}
    {token : Token} (found : segment.item? line = some (.ok token)) : token.kind ≠ .endOfInput := by
  cases segment with
  | blank c => cases found
  | comment body => cases found
  | token kind lexeme literal => cases found; exact fits.proper.1
  | stray c => cases found
  | unclosed body => cases found

/-- **No segment gives an end mark.** -/
lemma given_kind {front : List Char} {segments : List Segment} (fit : AllFit segments) {token : Token}
    (found : .ok token ∈ given front segments) : token.kind ≠ .endOfInput := by
  induction segments generalizing front with
  | nil => cases found
  | cons segment others ih =>
      rw [given, List.mem_append, Option.mem_toList] at found
      rcases found with first | later
      · exact kind_of_item? fit.1 first
      · exact ih fit.2 later

end Segment

/-- The items of `text` behind `front` are those of segments that fit, and the end mark. -/
def Partitioned (front text : List Char) (items : List Item) : Prop :=
  ∃ segments, Segment.texts segments = text ∧ Segment.AllFit segments ∧
    items = Segment.given front segments ++ [.ok (.endMark (Segment.lineAfter (front ++ text)))]

namespace Partitioned

variable {front behind : List Char} {items : List Item}

lemma nil : Partitioned front [] [.ok (.endMark (Segment.lineAfter front))] :=
  ⟨[], rfl, trivial, by rw [List.append_nil]; rfl⟩

/-- One segment in front of others. -/
lemma cons (segment : Segment) (fits : segment.Fits behind)
    (more : Partitioned (front ++ segment.text) behind items) :
    Partitioned front (segment.text ++ behind)
      ((segment.item? (Segment.lineAfter (front ++ segment.text))).toList ++ items) := by
  obtain ⟨segments, rfl, fit, rfl⟩ := more
  refine ⟨segment :: segments, Segment.texts_cons _ _, ⟨fits, fit⟩, ?_⟩
  rw [Segment.given, List.append_assoc, List.append_assoc]

end Partitioned

/-- **A reading by the rules consists of segments that fit.** -/
theorem Lexes.partitioned {line : Nat} {text : List Char} {items : List Item}
    (reading : Lexes line text items) (front : List Char) (here : line = Segment.lineAfter front) :
    Partitioned front text items := by
  induction reading generalizing front with
  | finish line => exact here ▸ .nil
  | @blank line c behind items skipped _ ih =>
      have next : (if c = '\n' then line + 1 else line) = Segment.lineAfter (front ++ [c]) := by
        rw [Segment.lineAfter_append, here]
        by_cases newline : c = '\n' <;> simp [newline]
      exact .cons (.blank c) skipped (ih _ next)
  | @remark line body behind items inside stops _ ih =>
      have next : line = Segment.lineAfter (front ++ (Segment.comment body).text) := by
        rw [Segment.lineAfter_append, here]
        exact congrArg (Segment.lineAfter front + ·) (Scan.newlines_remark inside).symm
      exact .cons (.comment body) ⟨inside, stops⟩ (ih _ next)
  | @lexeme line text lexeme behind kind literal items unremarked longest _ ih =>
      have next : line + lexeme.count '\n' = Segment.lineAfter (front ++ lexeme) := by
        rw [Segment.lineAfter_append, here]
      have whole := Partitioned.cons (.token kind lexeme literal) longest.entry (ih _ next)
      rw [Segment.text, longest.front, ← next] at whole
      exact whole
  | @unterminated line body inside =>
      have next : line + body.count '\n' =
          Segment.lineAfter (front ++ (Segment.unclosed body).text) := by
        rw [Segment.lineAfter_append, here]
        exact congrArg (Segment.lineAfter front + ·) (Scan.newlines_unclosed body).symm
      have whole : Partitioned front _ _ := .cons (.unclosed body) ⟨inside, rfl⟩ .nil
      rw [← next, List.append_nil] at whole
      exact whole
  | @stray line c behind items visible unquoted none_ _ ih =>
      have unbroken : c ≠ '\n' := fun newline => visible (.inr (.inr (.inr newline)))
      have next : line = Segment.lineAfter (front ++ [c]) := by
        rw [Segment.lineAfter_append, here]
        simp [unbroken]
      have whole := Partitioned.cons (.stray c) ⟨visible, unquoted, none_⟩ (ih _ next)
      rw [Segment.text, ← next] at whole
      exact whole

end LoxLang
