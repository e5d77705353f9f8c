import LoxLang.CommandLine.Arguments
import LoxLang.CommandLine.Prompt

/-!
# The command line

* **`Command.reply`** — what the program answers to a command, given the bytes of the file that the
  command works on and those of the standard input.
-/

namespace LoxLang

/-- What the program answers, or nothing if the allowance is used up. -/
def Command.reply (allowance : Nat) (session : Session) (content : Except FileFault (List UInt8))
    (input : List UInt8) : Command → Option Reply
  | .tokenize file json => Reply.onText file content fun source => some (.tokenize json source)
  | .parse file => Reply.onText file content fun source => some (.parse source)
  | .evaluate file => Reply.onText file content (Reply.evaluate allowance session)
  | .run file => Reply.onText file content (Reply.run allowance session)
  | .prompt => Prompt.converse allowance session (Lines.cut (· == 10) input)
  | .version => some ⟨0, "rox 0.1.0\n", ""⟩

end LoxLang
