import LoxLang.Text.Lines
import LoxLang.Text.Utf8

/-!
# Output in memory

* `Buffer` — bytes that were written and not yet taken out.
* `Buffer.contents`, `Buffer.lines` — what they say as text.
-/

namespace LoxLang

/-- Bytes that were written and not yet taken out. -/
structure Buffer where
  bytes : ByteArray

namespace Buffer

/-- A buffer without bytes. -/
def empty : Buffer := ⟨.empty⟩

/-- Adds bytes at the end. -/
def write (buffer : Buffer) (bytes : ByteArray) : Buffer := ⟨buffer.bytes ++ bytes⟩

/-- The bytes as text, faulty ones replaced by marks. -/
def contents (buffer : Buffer) : String := Utf8.decodeLossy buffer.bytes.toList

/-- The bytes as text, and the buffer without them. -/
def take (buffer : Buffer) : String × Buffer := (buffer.contents, empty)

/-- The lines of the text, without their ends. -/
def lines (buffer : Buffer) : List String :=
  (Lines.cut (· == '\n') buffer.contents.toList).map fun line =>
    String.ofList (Lines.withoutEnd line)

end Buffer

end LoxLang
