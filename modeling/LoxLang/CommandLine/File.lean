/-!
# Files that cannot be read

* `FileFault` — why the bytes of a file are not there.
* **`FileFault.attempt`**, **`FileFault.cause`** — what did not work, and how the system puts the
  reason.
-/

namespace LoxLang

/-- Why the bytes of a file are not there: nothing has the name; the name leads through something that
is no directory; a part of it is too long; the user may not open the file; or it is a directory. -/
inductive FileFault where
  | missing
  | notDirectory
  | longName
  | forbidden
  | directory
  deriving DecidableEq, Repr

namespace FileFault

/-- What did not work.  A directory can be opened, and it is mapping its bytes that fails. -/
def attempt : FileFault → String
  | directory => "map"
  | _ => "open"

/-- How the system puts the reason. -/
def cause : FileFault → String
  | missing => "No such file or directory (os error 2)"
  | notDirectory => "Not a directory (os error 20)"
  | longName => "File name too long (os error 36)"
  | forbidden => "Permission denied (os error 13)"
  | directory => "No such device (os error 19)"

end FileFault

end LoxLang
