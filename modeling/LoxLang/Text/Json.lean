import LoxLang.Number.Text

/-!
# JSON documents

Tokens can be shown as JSON, on one line or indented.

* `Json` — a document; fields keep their order.
* **`Json.compact`** and **`Json.indented`** — its two texts.
-/

namespace LoxLang

/-- A JSON document. -/
inductive Json where
  | null
  | natural (value : Nat)
  | number (value : Float)
  | text (value : String)
  | list (items : List Json)
  | object (fields : List (String × Json))

namespace Json

/-- A character inside a quoted text: the quote, the backslash and the controls below a space are
escaped, by a letter where there is one. -/
def escape (c : Char) : List Char :=
  if c = '"' then ['\\', '"']
  else if c = '\\' then ['\\', '\\']
  else if c = '\x08' then ['\\', 'b']
  else if c = '\x0c' then ['\\', 'f']
  else if c = '\n' then ['\\', 'n']
  else if c = '\r' then ['\\', 'r']
  else if c = '\t' then ['\\', 't']
  else if c < ' ' then
    ['\\', 'u', '0', '0', Nat.digitChar (c.toNat / 16), Nat.digitChar (c.toNat % 16)]
  else [c]

/-- A text in quotes. -/
def quote (s : String) : String :=
  "\"" ++ String.ofList (s.toList.flatMap escape) ++ "\""

mutual

/-- A document on one line, without blanks. -/
def compact : Json → String
  | .null => "null"
  | .natural n => n.repr
  | .number x => Number.json x
  | .text s => quote s
  | .list items => "[" ++ ",".intercalate (compactItems items) ++ "]"
  | .object fields => "\x7b" ++ ",".intercalate (compactFields fields) ++ "\x7d"

/-- The texts of list items. -/
def compactItems : List Json → List String
  | [] => []
  | item :: rest => item.compact :: compactItems rest

/-- The texts of object fields. -/
def compactFields : List (String × Json) → List String
  | [] => []
  | (name, value) :: rest => (quote name ++ ":" ++ value.compact) :: compactFields rest

end

/-- A new line at a given depth, two blanks for each level. -/
def newLine (depth : Nat) : String := "\n" ++ String.ofList (List.replicate (2 * depth) ' ')

/-- Parts in brackets, each on a line of its own one level deeper; without parts, the bare
brackets. -/
def bracketed (opening closing : String) (depth : Nat) (parts : List String) : String :=
  match parts with
  | [] => opening ++ closing
  | parts =>
    opening ++ newLine (depth + 1) ++ ("," ++ newLine (depth + 1)).intercalate parts
      ++ newLine depth ++ closing

mutual

/-- A document over several lines, at a given depth. -/
def indentedAt (depth : Nat) : Json → String
  | .null => "null"
  | .natural n => n.repr
  | .number x => Number.json x
  | .text s => quote s
  | .list items => bracketed "[" "]" depth (indentedItems (depth + 1) items)
  | .object fields => bracketed "\x7b" "\x7d" depth (indentedFields (depth + 1) fields)

/-- The texts of list items, at a given depth. -/
def indentedItems (depth : Nat) : List Json → List String
  | [] => []
  | item :: rest => item.indentedAt depth :: indentedItems depth rest

/-- The texts of object fields, at a given depth. -/
def indentedFields (depth : Nat) : List (String × Json) → List String
  | [] => []
  | (name, value) :: rest =>
    (quote name ++ ": " ++ value.indentedAt depth) :: indentedFields depth rest

end

/-- A document over several lines. -/
def indented (document : Json) : String := document.indentedAt 0

end Json

end LoxLang
