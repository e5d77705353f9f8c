/-!
# Arguments

* `Command` — what the program is asked to do.
* **`Command.ofArguments?`** — the command that arguments ask for.
-/

namespace LoxLang

/-- What the program is asked to do. -/
inductive Command where
  | tokenize (file : String) (json : Bool)
  | parse (file : String)
  | evaluate (file : String)
  | run (file : String)
  | prompt
  | version
  deriving DecidableEq, Repr

namespace Command

/-- The arguments after the name of a command, sorted into words and options.  Behind `--` all of them
are words; before it, one that starts with a dash and goes on is an option. -/
def sorted : List String → List String × List String
  | [] => ([], [])
  | argument :: rest =>
    if argument = "--" then (rest, [])
    else
      match argument.toList, sorted rest with
      | '-' :: _ :: _, (words, options) => (words, argument :: options)
      | _, (words, options) => (argument :: words, options)

/-- The command with a given name, if it takes the words and the options.  A file has a name; each
option is given once at most, and `--log` asks for nothing that can be seen here. -/
def named? (name : String) (words options : List String) : Option Command :=
  if "" ∈ words then none
  else
    match name, words, options.erase "--log" with
    | "tokenize", [file], [] => some (.tokenize file false)
    | "tokenize", [file], ["--json"] => some (.tokenize file true)
    | "parse", [file], [] => some (.parse file)
    | "evaluate", [file], [] => some (.evaluate file)
    | "run", [file], [] => some (.run file)
    | "repl", [], [] => some .prompt
    | _, _, _ => none

/-- Whether an argument asks for the version.  Letters may follow the short option: the version is
told before they are looked at. -/
def asksVersion (argument : String) : Bool :=
  match argument.toList with
  | '-' :: 'V' :: _ => true
  | _ => argument = "--version"

/-- The command that the arguments of the program ask for: an option `--log`, a name, and what follows
it.  Without a name the prompt starts. -/
def ofArguments? (arguments : List String) : Option Command :=
  let asked := match arguments with
    | "--log" :: rest => rest
    | _ => arguments
  match asked with
  | [] => some .prompt
  | ["--"] => some .prompt
  | name :: rest =>
    if asksVersion name then some .version
    else
      let (words, options) := sorted rest
      named? name words options

/-- The file that a command works on. -/
def file? : Command → Option String
  | tokenize file _ => some file
  | parse file => some file
  | evaluate file => some file
  | run file => some file
  | prompt => none
  | version => none

end Command

end LoxLang
