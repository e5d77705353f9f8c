import LoxLang.CommandLine
import Std.Time.DateTime.Timestamp

/-!
# The program

Everything here is reading and writing; what to write is settled by `Command.reply` and, for the
prompt, by `Prompt.answer`.
-/

namespace LoxLang.Main

/-- More steps than any evaluation takes. -/
def allowance : Nat := Nat.pow 10 18

/-- A clock that starts at a time in milliseconds and goes on by one whenever it is read. -/
def clockFrom (start : Nat) (reading : Nat) : Float := (start + reading).toFloat / 1000

/-- Reads the standard input up to a line end or to the end. -/
partial def readLine (input : IO.FS.Stream) (line : List UInt8) : IO (List UInt8) := do
  match (← input.read 1).toList with
  | [] => return line.reverse
  | byte :: _ =>
    if byte = 10 then return (byte :: line).reverse else readLine input (byte :: line)

/-- Writes a text at once. -/
def write (stream : IO.FS.Stream) (text : String) : IO Unit := do
  stream.putStr text
  stream.flush

/-- Answers lines until there are no more of them or one cannot be read. -/
partial def prompt (session : Session) : IO UInt32 := do
  let output ← IO.getStdout
  let errors ← IO.getStderr
  write output Prompt.text
  let line ← readLine (← IO.getStdin) []
  if line.isEmpty then
    write output Prompt.farewell
    return 0
  match Prompt.answer allowance line session with
  | some (.answered shown problems session) =>
    write output shown
    write errors problems
    prompt session
  | some .unreadable =>
    write errors Prompt.complaint
    return 1
  | none => return 1

/-- The fault that an error of the system tells of; 21 is its number for a directory. -/
def faultOf : IO.Error → FileFault
  | .inappropriateType _ 21 _ => .directory
  | .inappropriateType _ _ _ => .notDirectory
  | .invalidArgument _ _ _ => .longName
  | .permissionDenied _ _ _ => .forbidden
  | _ => .missing

/-- The bytes of a file, or why they are not there. -/
def readFile (name : String) : IO (Except FileFault (List UInt8)) := do
  try
    return .ok (← IO.FS.readBinFile name).toList
  catch error =>
    return .error (faultOf error)

/-- Writes an answer and yields its exit code. -/
def tell (reply : Reply) : IO UInt32 := do
  write (← IO.getStdout) reply.output
  write (← IO.getStderr) reply.errors
  return reply.exitCode.toUInt32

/-- Does what the arguments ask for. -/
def run (arguments : List String) : IO UInt32 := do
  let now ← Std.Time.Timestamp.now
  let session := Session.start (.direct .empty)
    (clockFrom now.toMillisecondsSinceUnixEpoch.val.toNat)
  match Command.ofArguments? arguments with
  | none => tell .usage
  | some .prompt => prompt session
  | some command =>
    let content ← match command.file? with
      | some name => readFile name
      | none => pure (.error .missing)
    match command.reply allowance session content [] with
    | some reply => tell reply
    | none => return 1

end LoxLang.Main

/-- The command line program. -/
def main (arguments : List String) : IO UInt32 := LoxLang.Main.run arguments
