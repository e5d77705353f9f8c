/-!
# Lines

* **`Lines.cut`** — a text cut behind each of its line ends, so that the lines joined are the text.
* `Lines.withoutEnd` — a line without what ends it.
-/

namespace LoxLang.Lines

/-- A list cut behind each member for which `isEnd` holds. -/
def cut {α : Type} (isEnd : α → Bool) : List α → List (List α)
  | [] => []
  | first :: rest =>
    if isEnd first then [first] :: cut isEnd rest
    else
      match cut isEnd rest with
      | [] => [[first]]
      | line :: others => (first :: line) :: others

/-- The lines joined are the text. -/
theorem flatten_cut {α : Type} (isEnd : α → Bool) (text : List α) :
    (cut isEnd text).flatten = text := by
  induction text with
  | nil => rfl
  | cons first rest ih =>
    simp only [cut]
    split
    · simp [ih]
    · split
      · next none => simp [none] at ih; simp [ih]
      · next line others some => simp [some] at ih; simp [ih]

/-- A line without its line feed and without a carriage return right before that; a line that has no
line feed stays as it is. -/
def withoutEnd (line : List Char) : List Char :=
  if line.getLast? = some '\n' then
    let shorter := line.dropLast
    if shorter.getLast? = some '\r' then shorter.dropLast else shorter
  else line

end LoxLang.Lines
