import LoxLang.Proofs.Grammar.Reader

/-!
# Reading tokens by their index

The parser of programs over the whole token list and an index into it.  Nothing is dropped from the
list, so an access can be out of range, a token behind the first end mark can be read, and a loop may
never end.  Each of these shows in how the reading ends.

* `Look` — a use of the list: a token was read, or a declaration was gone through.
* `Course` — what a piece of reading did: the new index, the looks on the way, the errors and the end.
* `Indexed.peek`, `Indexed.previous` — the only two accesses.
* `Indexed.reader`, `Indexed.assembly` — what the rules of the grammar are made of.
* **`Indexed.parse`**, **`Indexed.parseExpression`** — the parser in these terms.

Every loop and every rule counts down a number of steps and ends as `exhausted` when there are none
left: a course without that ending, for all large numbers of steps, is one of a reading that ends.
-/

namespace LoxLang

/-- A use of the token list when the index is `current`. -/
inductive Look where
  /-- The token at the index was read. -/
  | peek (current : Nat)
  /-- The token before the index was read. -/
  | previous (current : Nat)
  /-- A declaration was read, or given up, from one index to another. -/
  | declared (before after : Nat)
  deriving DecidableEq, Repr

/-- How a piece of reading ends. -/
inductive Ending (α : Type) where
  | value (value : α)
  | raised (error : SyntaxError) (place : Token)
  /-- There is no token at the index that was read. -/
  | outOfRange
  /-- The steps that were granted are used up. -/
  | exhausted
  deriving DecidableEq, Repr

/-- Reading a token that may not be there. -/
def Ending.ofToken? : Option Token → Ending Token
  | some token => .value token
  | none => .outOfRange

/-- What a piece of reading did. -/
structure Course (α : Type) where
  /-- The index at its end. -/
  current : Nat
  looks : List Look
  /-- The errors told of, each with the token that it names. -/
  reports : List (SyntaxError × Token)
  ending : Ending α
  deriving DecidableEq, Repr

/-- Reads a token list from an index on. -/
def Indexed (α : Type) := List Token → Nat → Course α

namespace Indexed

variable {α β : Type}

/-- Reads nothing. -/
protected def pure (value : α) : Indexed α := fun _ current => ⟨current, [], [], .value value⟩

/-- One piece after another; every ending but a value ends both. -/
protected def bind (first : Indexed α) (second : α → Indexed β) : Indexed β := fun tokens current =>
  match first tokens current with
  | ⟨middle, looks, reports, .value value⟩ =>
    let next := second value tokens middle
    ⟨next.current, looks ++ next.looks, reports ++ next.reports, next.ending⟩
  | ⟨middle, looks, reports, .raised error place⟩ => ⟨middle, looks, reports, .raised error place⟩
  | ⟨middle, looks, reports, .outOfRange⟩ => ⟨middle, looks, reports, .outOfRange⟩
  | ⟨middle, looks, reports, .exhausted⟩ => ⟨middle, looks, reports, .exhausted⟩

instance : Monad Indexed where
  pure := Indexed.pure
  bind := Indexed.bind

/-- The steps are used up. -/
def exhausted : Indexed α := fun _ current => ⟨current, [], [], .exhausted⟩

/-! ## Accesses -/

/-- The token at the index. -/
def peek : Indexed Token := fun tokens current =>
  ⟨current, [.peek current], [], Ending.ofToken? tokens[current]?⟩

/-- The token before the index; there is none before the first. -/
def previous : Indexed Token := fun tokens current =>
  match current with
  | 0 => ⟨0, [.previous 0], [], .outOfRange⟩
  | before + 1 => ⟨before + 1, [.previous (before + 1)], [], Ending.ofToken? tokens[before]?⟩

/-- Moves the index on by one, whatever stands there. -/
def step : Indexed Unit := fun _ current => ⟨current + 1, [], [], .value ()⟩

/-- Whether the index is at an end mark. -/
def isAtEnd : Indexed Bool := do
  let token ← peek
  return token.isEnd

/-- Whether the index is at a token of a kind, other than an end mark. -/
def check (kind : Kind) : Indexed Bool := do
  if ← isAtEnd then return false
  else
    let token ← peek
    return token.kind == kind

/-- Goes on to the next token, unless at an end mark, and gives the one before it. -/
def advance : Indexed Token := do
  if ← isAtEnd then previous
  else
    step
    previous

/-- Goes behind a token of one of the kinds, if there is one. -/
def acceptAny : List Kind → Indexed (Option Token)
  | [] => return none
  | kind :: kinds => do
    if ← check kind then
      let _ ← advance
      some <$> previous
    else acceptAny kinds

/-- Goes behind a token of a kind, if there is one. -/
def accept (kind : Kind) : Indexed (Option Token) := acceptAny [kind]

/-- Goes behind a token of one of the kinds, if there is one, and gives `f` of it. -/
def acceptMap (kinds : List Kind) (f : Token → Option α) : Indexed (Option α) := do
  match ← acceptAny kinds with
  | some token => return f token
  | none => return none

/-- Stops with an error at the token at the index. -/
def raise (error : SyntaxError) : Indexed α := fun tokens current =>
  match peek tokens current with
  | ⟨_, looks, reports, .value place⟩ => ⟨current, looks, reports, .raised error place⟩
  | ⟨_, looks, reports, _⟩ => ⟨current, looks, reports, .outOfRange⟩

/-- Goes behind a token of a kind, which must be there. -/
def expect (kind : Kind) (what : Expectation) : Indexed Token := do
  if ← check kind then advance else raise (.expected what)

/-- Tells of an error at a token and goes on. -/
def report (error : SyntaxError) (place : Token) : Indexed Unit := fun _ current =>
  ⟨current, [], [(error, place)], .value ()⟩

/-! ## Recovery -/

/-- Goes on to an end mark or to the next place where a statement may start. -/
def settle : Nat → Indexed Unit
  | 0 => exhausted
  | m + 1 => do
    if ← isAtEnd then return ()
    else
      let last ← previous
      if last.kind = .semicolon then return ()
      else
        let token ← peek
        if Parser.startsStatement token.kind then return ()
        else
          let _ ← advance
          settle m

/-- Skips the token that an error stands at, and on to where a statement may start. -/
def synchronize (m : Nat) : Indexed Unit := do
  let _ ← advance
  settle m

/-- Reads on behind a raised error. -/
def catching (read : Indexed α) (handler : SyntaxError → Token → Indexed α) : Indexed α :=
  fun tokens current =>
    match read tokens current with
    | ⟨middle, looks, reports, .raised error place⟩ =>
      let next := handler error place tokens middle
      ⟨next.current, looks ++ next.looks, reports ++ next.reports, next.ending⟩
    | course => course

/-- Tells of a raised error and goes on to where a statement may start, without a value. -/
def recover (m : Nat) (error : SyntaxError) (place : Token) : Indexed (Option α) := do
  report error place
  (fun _ => none) <$> synchronize m

/-- Reads on behind a raised error, where a statement may start. -/
def recovering (m : Nat) (read : Indexed α) : Indexed (Option α) :=
  catching (some <$> read) (recover m)

/-- Notes where a declaration began and ended. -/
def declaring (read : Indexed α) : Indexed α := fun tokens current =>
  match read tokens current with
  | ⟨after, looks, reports, .value value⟩ =>
    ⟨after, looks ++ [.declared current after], reports, .value value⟩
  | course => course

/-! ## The rules -/

/-- A constant, if there is one at the index. -/
def constant : Indexed (Option Constant) :=
  acceptMap [.keyword .false_, .keyword .true_, .keyword .nil, .number, .string] Constant.ofToken?

/-- What the token at the index announces at the start of a statement. -/
def opening : Indexed (Option Parser.Opening) :=
  acceptMap [.keyword .for_, .keyword .if_, .keyword .while_, .keyword .return_, .leftBrace,
    .keyword .print] Parser.Opening.ofToken?

/-- Whether declarations stop at the index: at an end mark, or at a token of the closing kind. -/
def stops : (closing : Option Kind) → Indexed Bool
  | none => isAtEnd
  | some kind => do
    if ← check kind then return true else isAtEnd

/-- Readings by index; an error is told of at a token. -/
def reader : Reader Indexed Token where
  spent _ := exhausted
  raise what := raise (.expected what)
  report := report
  next := peek
  isNext := check
  accept := accept
  acceptAny := acceptAny
  equals := accept .equal
  constant := constant
  opening := opening
  expect := expect
  stops := stops
  node make := return make none

/-- The rules for statements, with these readings. -/
def assembly : Assembly Indexed Indexed Stmt Stmt Stmt where
  toParts := reader.parts reader.assignment (fun m => reader.signature (reader.parameters m 0)) .plain
  trees := .plain
  forLoop clauses body := return .forLoop clauses.1 clauses.2.1 clauses.2.2 body
  asDeclaration := id
  stops := stops
  attempt m read := declaring do
    let _ ← peek
    recovering m read
  enclose := id
  spentDeclaration := exhausted
  spentStatement := exhausted
  spentBlock := exhausted
  spentDeclarations := exhausted

/-! ## Whole inputs -/

/-- The statements of a program. -/
def parse (m : Nat) : Indexed (List Stmt) := assembly.declarations m none

/-- The expression that the tokens from the index on consist of. -/
def wholeExpression (m : Nat) : Indexed (Option Expr) := do
  let value ← reader.assignment m
  if ← isAtEnd then return some value else raise (.expected .endOfExpression)

/-- The one expression that the tokens consist of, unless an error stops it. -/
def parseExpression (m : Nat) : Indexed (Option Expr) :=
  catching (wholeExpression m) fun error place => (fun _ => none) <$> report error place

end Indexed

end LoxLang
