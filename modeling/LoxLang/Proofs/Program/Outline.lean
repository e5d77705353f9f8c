import Mathlib

/-!
# Nested texts in parentheses

A word, or such texts in parentheses with blanks between them: a text of this form can be taken apart
in one way only, as long as words have no blanks and no parentheses in them.

* `Outline` — words and nested lists of them; `Outline.chars` — an outline as text.
* `Outline.Proper` — the words of an outline can be told from what is around them.
* **`Outline.chars_inj`** — two outlines with the same text, each in front of a place where a word
  would stop, are the same.
-/

namespace LoxLang

/-- A word, or outlines in parentheses. -/
inductive Outline where
  | word (text : String)
  | form (parts : List Outline)

namespace Outline

mutual

/-- The characters of an outline. -/
def chars : Outline → List Char
  | word text => text.toList
  | form parts => '(' :: (joined parts ++ [')'])

/-- The characters of outlines with blanks between them. -/
def joined : List Outline → List Char
  | [] => []
  | first :: others => first.chars ++ spaced others

/-- The characters of outlines with a blank in front of each. -/
def spaced : List Outline → List Char
  | [] => []
  | next :: others => ' ' :: (next.chars ++ spaced others)

end

/-- The characters that separate words. -/
def Separates (c : Char) : Prop := c = ' ' ∨ c = '(' ∨ c = ')'

instance (c : Char) : Decidable (Separates c) :=
  inferInstanceAs (Decidable (c = ' ' ∨ c = '(' ∨ c = ')'))

/-- A text without separators that is not empty. -/
def IsWord (text : String) : Prop := text.toList ≠ [] ∧ ∀ c ∈ text.toList, ¬Separates c

instance (text : String) : Decidable (IsWord text) :=
  have := List.decidableBAll (¬Separates ·) text.toList
  inferInstanceAs (Decidable (text.toList ≠ [] ∧ ∀ c ∈ text.toList, ¬Separates c))

mutual

/-- All words can be told from what is around them. -/
def Proper : Outline → Prop
  | word text => IsWord text
  | form parts => ProperAll parts

/-- All words of all outlines can be told from what is around them. -/
def ProperAll : List Outline → Prop
  | [] => True
  | first :: others => first.Proper ∧ ProperAll others

end

lemma proper_word {text : String} (apart : IsWord text) : (word text).Proper := apart

/-! ## Where a word stops -/

/-- A place where a word would stop. -/
def Stops (rest : List Char) : Prop := ∀ c, rest.head? = some c → Separates c

lemma stops_nil : Stops [] := fun _ none => by cases none

lemma stops_closing (rest : List Char) : Stops (')' :: rest) := fun c first => by
  cases first
  exact .inr (.inr rfl)

lemma stops_spaced (parts : List Outline) (rest : List Char) :
    Stops (spaced parts ++ ')' :: rest) := by
  cases parts with
  | nil => exact stops_closing rest
  | cons next others =>
    intro c first
    cases first
    exact .inl rfl

/-- The first character of a word separates nothing. -/
lemma IsWord.head {text : String} (proper : IsWord text) :
    ∃ c more, text.toList = c :: more ∧ ¬Separates c := by
  obtain ⟨c, more, shape⟩ := List.exists_cons_of_ne_nil proper.1
  exact ⟨c, more, shape, proper.2 c (by rw [shape]; exact List.mem_cons_self)⟩

/-- An outline does not start where a list of them ends. -/
lemma Proper.head {outline : Outline} (proper : outline.Proper) :
    ∃ c more, outline.chars = c :: more ∧ c ≠ ')' := by
  cases outline with
  | word text =>
    obtain ⟨c, more, shape, plain⟩ := IsWord.head proper
    exact ⟨c, more, shape, fun closing => plain (.inr (.inr closing))⟩
  | form parts => exact ⟨'(', _, rfl, by decide⟩

/-- Words in front of places where they stop are told apart by the first separator. -/
lemma word_inj : ∀ {left right rest rest' : List Char}, (∀ c ∈ left, ¬Separates c) →
    (∀ c ∈ right, ¬Separates c) → Stops rest → Stops rest' → left ++ rest = right ++ rest' →
    left = right ∧ rest = rest'
  | [], [], _, _, _, _, _, _, same => ⟨rfl, same⟩
  | [], d :: right, rest, _, _, plain, stops, _, same => by
      refine absurd (stops d ?_) (plain d List.mem_cons_self)
      rw [← List.nil_append rest, same]
      rfl
  | c :: left, [], _, rest', plain, _, _, stops, same => by
      refine absurd (stops c ?_) (plain c List.mem_cons_self)
      rw [← List.nil_append rest', ← same]
      rfl
  | c :: left, d :: right, _, _, plain, plain', stops, stops', same => by
      obtain ⟨rfl, more⟩ := List.cons.inj same
      obtain ⟨rfl, behind⟩ := word_inj (fun c mem => plain c (List.mem_cons_of_mem _ mem))
        (fun c mem => plain' c (List.mem_cons_of_mem _ mem)) stops stops' more
      exact ⟨rfl, behind⟩

/-! ## One way to read -/

mutual

/-- **An outline can be read in one way.** -/
theorem chars_inj : ∀ {left right : Outline} {rest rest' : List Char}, left.Proper → right.Proper →
    Stops rest → Stops rest' → left.chars ++ rest = right.chars ++ rest' → left = right ∧ rest = rest'
  | word text, word text', _, _, proper, proper', stops, stops', same => by
      obtain ⟨texts, behind⟩ := word_inj proper.2 proper'.2 stops stops' same
      exact ⟨congrArg word (String.toList_inj.mp texts), behind⟩
  | word text, form parts, _, _, proper, _, _, _, same => by
      obtain ⟨c, more, shape, plain⟩ := IsWord.head proper
      rw [chars, shape, chars] at same
      obtain ⟨rfl, -⟩ := List.cons.inj same
      exact absurd (.inr (.inl rfl)) plain
  | form parts, word text, _, _, _, proper, _, _, same => by
      obtain ⟨c, more, shape, plain⟩ := IsWord.head proper
      rw [chars, chars, shape] at same
      obtain ⟨rfl, -⟩ := List.cons.inj same
      exact absurd (.inr (.inl rfl)) plain
  | form parts, form parts', rest, rest', proper, proper', _, _, same => by
      rw [chars, chars, List.cons_append, List.cons_append, List.append_assoc,
        List.append_assoc] at same
      have inside := (List.cons.inj same).2
      obtain ⟨rfl, behind⟩ := joined_inj proper proper' inside
      exact ⟨rfl, behind⟩

/-- A list of outlines can be read in one way, up to the parenthesis that ends it. -/
theorem joined_inj : ∀ {left right : List Outline} {rest rest' : List Char}, ProperAll left →
    ProperAll right → joined left ++ ')' :: rest = joined right ++ ')' :: rest' →
    left = right ∧ rest = rest'
  | [], [], _, _, _, _, same => ⟨rfl, (List.cons.inj same).2⟩
  | [], first :: others, _, _, _, ⟨proper, _⟩, same => by
      obtain ⟨c, more, shape, plain⟩ := proper.head
      rw [joined, joined, shape] at same
      exact absurd (List.cons.inj same).1.symm plain
  | first :: others, [], _, _, ⟨proper, _⟩, _, same => by
      obtain ⟨c, more, shape, plain⟩ := proper.head
      rw [joined, joined, shape] at same
      exact absurd (List.cons.inj same).1 plain
  | first :: others, first' :: others', rest, rest', ⟨proper, all⟩, ⟨proper', all'⟩, same => by
      rw [joined, joined, List.append_assoc, List.append_assoc] at same
      obtain ⟨rfl, more⟩ := chars_inj proper proper' (stops_spaced _ _) (stops_spaced _ _) same
      obtain ⟨rfl, behind⟩ := spaced_inj all all' more
      exact ⟨rfl, behind⟩

/-- Further outlines can be read in one way, up to the parenthesis that ends their list. -/
theorem spaced_inj : ∀ {left right : List Outline} {rest rest' : List Char}, ProperAll left →
    ProperAll right → spaced left ++ ')' :: rest = spaced right ++ ')' :: rest' →
    left = right ∧ rest = rest'
  | [], [], _, _, _, _, same => ⟨rfl, (List.cons.inj same).2⟩
  | [], next :: others, _, _, _, _, same => by
      cases (List.cons.inj same).1
  | next :: others, [], _, _, _, _, same => by
      cases (List.cons.inj same).1
  | next :: others, next' :: others', rest, rest', ⟨proper, all⟩, ⟨proper', all'⟩, same => by
      rw [spaced, spaced, List.cons_append, List.cons_append, List.append_assoc,
        List.append_assoc] at same
      have inside := (List.cons.inj same).2
      obtain ⟨rfl, more⟩ := chars_inj proper proper' (stops_spaced _ _) (stops_spaced _ _) inside
      obtain ⟨rfl, behind⟩ := spaced_inj all all' more
      exact ⟨rfl, behind⟩

end

/-- **Outlines with the same text are the same.** -/
theorem eq_of_chars {left right : Outline} (proper : left.Proper) (proper' : right.Proper)
    (same : left.chars = right.chars) : left = right :=
  (chars_inj proper proper' stops_nil stops_nil (congrArg (· ++ []) same)).1

end Outline

end LoxLang
