import LoxLang.CommandLine.Reply

/-!
# The interactive prompt

Each line of the input is a program of its own, and all of them share one session.

* `Prompt.answer` — what one line brings.
* **`Prompt.converse`** — what all lines bring, up to the end or to one that cannot be read.
-/

namespace LoxLang

/-- What a line brings: texts for standard output and standard error and the session for the next
line, or nothing but the end if the line is no text. -/
inductive Turn where
  | answered (output errors : String) (session : Session)
  | unreadable

namespace Prompt

/-- What is shown before a line is read. -/
def text : String := "> "

/-- What is shown behind the last line. -/
def farewell : String := "\n"

/-- What is shown when a line cannot be read. -/
def complaint : String := "Error: stream did not contain valid UTF-8\n"

/-- Runs one line, with its line end. -/
def answer (allowance : Nat) (line : List UInt8) (session : Session) : Option Turn :=
  match Utf8.decode line with
  | .error _ => some .unreadable
  | .ok source =>
    (session.run allowance source).map fun (_, session) =>
      let (output, session) := session.takeOutput
      let (diagnostics, session) := session.takeDiagnostics
      .answered output (Diagnostic.listed diagnostics) session

/-- Runs lines one after another. -/
def converse (allowance : Nat) (session : Session) : List (List UInt8) → Option Reply
  | [] => some ⟨0, text ++ farewell, ""⟩
  | line :: rest =>
    match answer allowance line session with
    | none => none
    | some .unreadable => some ⟨1, text, complaint⟩
    | some (.answered output errors session) =>
      (converse allowance session rest).map fun reply =>
        ⟨reply.exitCode, text ++ output ++ reply.output, errors ++ reply.errors⟩

end Prompt

end LoxLang
