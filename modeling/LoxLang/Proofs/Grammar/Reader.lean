import Mathlib.Tactic.Lemma
import LoxLang.Grammar.Statement

/-!
# Parsers made of other readings

What the parser does can be told by another one, which numbers the nodes that it makes, reads the tokens
by their index, or keeps a journal.  The rules of the grammar are the same for all of them, so they are
written here once.

* `Reader` — a kind of readings: what becomes of single tokens and of a new node.
* `Reader.assignment`, `Reader.arguments` and the others — the rules for expressions.
* `Reader.clause`, `Reader.forClauses` and the others — the parts of statements.
* `Trees` — what statements are made into; `Assembly` — what the rules for statements are made of.
* `Assembly.declaration`, `Assembly.statement` and the others — these rules.
* **`Parser.reader_rules`**, **`Parser.assembly_rules`** — for the readings of the parser itself, the
  rules are those of the parser.
-/

namespace LoxLang

/-- A kind of readings; an error is told of at a `Place`. -/
structure Reader (P : Type → Type) (Place : Type) where
  /-- What becomes of a rule that has no steps left. -/
  spent : {α : Type} → Expectation → P α
  raise : {α : Type} → Expectation → P α
  report : SyntaxError → Place → P Unit
  /-- The place of the next token. -/
  next : P Place
  isNext : Kind → P Bool
  accept : Kind → P (Option Token)
  acceptAny : List Kind → P (Option Token)
  /-- Reads an equals sign, if there is one, and gives its place. -/
  equals : P (Option Place)
  constant : P (Option Constant)
  opening : P (Option Parser.Opening)
  expect : Kind → Expectation → P Token
  /-- Whether declarations stop here: at the end, or at a token of the closing kind. -/
  stops : Option Kind → P Bool
  /-- A new node, which may take a number. -/
  node : (Option Nat → Expr) → P Expr

namespace Reader

/-- The same readings, taken for readings of another kind. -/
def map {P Q : Type → Type} {Place : Type} (reader : Reader P Place)
    (lift : {α : Type} → P α → Q α) : Reader Q Place where
  spent what := lift (reader.spent what)
  raise what := lift (reader.raise what)
  report error place := lift (reader.report error place)
  next := lift reader.next
  isNext kind := lift (reader.isNext kind)
  accept kind := lift (reader.accept kind)
  acceptAny kinds := lift (reader.acceptAny kinds)
  equals := lift reader.equals
  constant := lift reader.constant
  opening := lift reader.opening
  expect kind what := lift (reader.expect kind what)
  stops closing := lift (reader.stops closing)
  node make := lift (reader.node make)

variable {P : Type → Type} [Monad P] {Place α I : Type} (reader : Reader P Place)

/-! ## Expressions -/

mutual

/-- An expression: an operation, or a variable with `=` and an expression behind it. -/
def assignment : Nat → P Expr
  | 0 => reader.spent .expression
  | n + 1 => do
    let target ← operation n Level.all
    match ← reader.equals with
    | none => return target
    | some place =>
      let value ← assignment n
      match target with
      | .variable name _ => reader.node fun number => .assign name value number
      | _ =>
        reader.report .invalidTarget place
        return target

/-- Operands joined by the operators of the first level; the other levels bind tighter. -/
def operation : Nat → List Level → P Expr
  | 0, _ => reader.spent .expression
  | n + 1, [] => unary n
  | n + 1, level :: tighter => do
    let left ← operation n tighter
    chain n level tighter left

/-- The operators and operands behind the operand `left`. -/
def chain : Nat → Level → List Level → Expr → P Expr
  | 0, _, _, _ => reader.spent .expression
  | n + 1, level, tighter, left => do
    match ← reader.acceptAny level.operators with
    | none => return left
    | some operator =>
      let right ← operation n tighter
      let whole ← reader.node fun _ => level.node left operator right
      chain n level tighter whole

/-- Operators in front of an operand. -/
def unary : Nat → P Expr
  | 0 => reader.spent .expression
  | n + 1 => do
    match ← reader.acceptAny [.bang, .minus] with
    | some operator =>
      let operand ← unary n
      reader.node fun _ => .unary operator operand
    | none =>
      let callee ← primary n
      calls n callee

/-- The calls behind a callee. -/
def calls : Nat → Expr → P Expr
  | 0, _ => reader.spent .expression
  | n + 1, callee => do
    match ← reader.accept .leftParen with
    | none => return callee
    | some _ =>
      let arguments ← if ← reader.isNext .rightParen then pure [] else arguments n 0
      let paren ← reader.expect .rightParen .closeParenAfterArguments
      let whole ← reader.node fun _ => .call callee paren arguments
      calls n whole

/-- Arguments separated by commas, of which `count` have been read before. -/
def arguments : Nat → (count : Nat) → P (List Expr)
  | 0, _ => reader.spent .expression
  | n + 1, count => do
    let _ ← if maxArguments ≤ count then reader.next >>= reader.report .tooManyArguments else pure ()
    let first ← assignment n
    match ← reader.accept .comma with
    | none => return [first]
    | some _ =>
      let others ← arguments n (count + 1)
      return first :: others

/-- A constant, a variable or an expression in parentheses. -/
def primary : Nat → P Expr
  | 0 => reader.spent .expression
  | n + 1 => do
    match ← reader.constant with
    | some value => reader.node fun _ => .literal value
    | none =>
      match ← reader.accept .identifier with
      | some name => reader.node fun number => .variable name number
      | none =>
        match ← reader.accept .leftParen with
        | some _ =>
          let inner ← assignment n
          let _ ← reader.expect .rightParen .closeParenAfterExpression
          reader.node fun _ => .group inner
        | none => reader.raise .expression

end

/-! ## Names -/

/-- Parameter names separated by commas, of which `count` have been read before. -/
def parameters : Nat → (count : Nat) → P (List Token)
  | 0, _ => reader.spent .parameterName
  | n + 1, count => do
    let _ ← if maxArguments ≤ count then reader.next >>= reader.report .tooManyParameters else pure ()
    let first ← reader.expect .identifier .parameterName
    match ← reader.accept .comma with
    | none => return [first]
    | some _ =>
      let others ← parameters n (count + 1)
      return first :: others

/-- A name with parameters, up to the opening brace of the body. -/
def signature (names : P (List Token)) : P (Token × List Token) := do
  let name ← reader.expect .identifier .functionName
  let _ ← reader.expect .leftParen .openParenAfterFunctionName
  let names ← if ← reader.isNext .rightParen then pure [] else names
  let _ ← reader.expect .rightParen .closeParenAfterParameters
  let _ ← reader.expect .leftBrace .openBraceOfFunction
  return (name, names)

/-! ## Parts of statements

Each is given how an expression is read, and what is made of the expressions in it.
-/

section

variable (expression : P Expr)

/-- An expression, unless a token of kind `closing` shows that it was left out. -/
def clause (closing : Kind) : P (Option Expr) := do
  if ← reader.isNext closing then return none
  else some <$> expression

/-- What follows `var`. -/
def variableDeclaration (make : Token → Option Expr → α) : P α := do
  let name ← reader.expect .identifier .variableName
  let initializer ← match ← reader.accept .equal with
    | some _ => some <$> expression
    | none => pure none
  let _ ← reader.expect .semicolon .semicolonAfterVariable
  return make name initializer

/-- An expression with a semicolon behind it. -/
def valueStatement (what : Expectation) (make : Expr → α) : P α := do
  let value ← expression
  let _ ← reader.expect .semicolon what
  return make value

/-- What follows the token `return`. -/
def returnStatement (make : Option Expr → α) : P α := do
  let value ← reader.clause expression .semicolon
  let _ ← reader.expect .semicolon .semicolonAfterReturn
  return make value

/-- A condition in parentheses. -/
def condition (opening closing : Expectation) : P Expr := do
  let _ ← reader.expect .leftParen opening
  let value ← expression
  let _ ← reader.expect .rightParen closing
  return value

/-- The first clause of a `for` loop, with its semicolon. -/
def forInitializer (makeVariable : Token → Option Expr → I) (makeValue : Expr → I) : P (Option I) := do
  match ← reader.accept .semicolon with
  | some _ => return none
  | none =>
    match ← reader.accept (.keyword .var) with
    | some _ => some <$> reader.variableDeclaration expression makeVariable
    | none => some <$> reader.valueStatement expression .semicolonAfterExpression makeValue

/-- The clauses of a `for` loop, in their parentheses. -/
def forClauses (makeVariable : Token → Option Expr → I) (makeValue : Expr → I) :
    P (Option I × Option Expr × Option Expr) := do
  let _ ← reader.expect .leftParen .openParenAfterFor
  let initializer ← reader.forInitializer expression makeVariable makeValue
  let condition ← reader.clause expression .semicolon
  let _ ← reader.expect .semicolon .semicolonAfterForCondition
  let increment ← reader.clause expression .rightParen
  let _ ← reader.expect .rightParen .closeParenAfterFor
  return (initializer, condition, increment)

end

end Reader

/-! ## Statements -/

/-- What is made of declarations, of statements and of the first clause of a loop. -/
structure Trees (I S D : Type) where
  firstVar : Token → Option Expr → I
  firstValue : Expr → I
  value : Expr → S
  print : Expr → S
  return_ : Token → Option Expr → S
  block : List D → S
  branch : Expr → S → Option S → S
  loop : Expr → S → S
  forLoop : Option I → Option Expr → Option Expr → S → S
  var : Token → Option Expr → D
  function : Token → List Token → List D → D

/-- The trees of the program itself. -/
def Trees.plain : Trees Stmt Stmt Stmt where
  firstVar := .variable
  firstValue := .expression
  value := .expression
  print := .print
  return_ := .return_
  block := .block
  branch := .branch
  loop := .loop
  forLoop := .forLoop
  var := .variable
  function := .function

/-- What statements are read from, apart from other statements, each with the steps that are left. -/
structure Parts (Q : Type → Type) (I S D : Type) where
  accept : Kind → Q (Option Token)
  expect : Kind → Expectation → Q Token
  opening : Q (Option Parser.Opening)
  signature : Nat → Q (Token × List Token)
  var : Nat → Q D
  value : Nat → Q S
  print : Nat → Q S
  return_ : Nat → Token → Q S
  condition : Nat → Expectation → Expectation → Q Expr
  forClauses : Nat → Q (Option I × Option Expr × Option Expr)

/-- The parts of statements as a kind of readings has them. -/
def Reader.parts {Q : Type → Type} [Monad Q] {Place I S D : Type} (reader : Reader Q Place)
    (expression : Nat → Q Expr) (signature : Nat → Q (Token × List Token)) (trees : Trees I S D) :
    Parts Q I S D where
  accept := reader.accept
  expect := reader.expect
  opening := reader.opening
  signature := signature
  var n := reader.variableDeclaration (expression n) trees.var
  value n := reader.valueStatement (expression n) .semicolonAfterExpression trees.value
  print n := reader.valueStatement (expression n) .semicolonAfterPrint trees.print
  return_ n keyword := reader.returnStatement (expression n) (trees.return_ keyword)
  condition n := reader.condition (expression n)
  forClauses n := reader.forClauses (expression n) trees.firstVar trees.firstValue

/-- The same parts, taken for readings of another kind. -/
def Parts.map {Q R : Type → Type} {I S D : Type} (parts : Parts Q I S D)
    (lift : {α : Type} → Q α → R α) : Parts R I S D where
  accept kind := lift (parts.accept kind)
  expect kind what := lift (parts.expect kind what)
  opening := lift parts.opening
  signature n := lift (parts.signature n)
  var n := lift (parts.var n)
  value n := lift (parts.value n)
  print n := lift (parts.print n)
  return_ n keyword := lift (parts.return_ n keyword)
  condition n opening closing := lift (parts.condition n opening closing)
  forClauses n := lift (parts.forClauses n)

/-- What the rules for statements are made of: the parts of statements in readings `Q`, and lists of
declarations in readings `P`. -/
structure Assembly (P Q : Type → Type) (I S D : Type) extends Parts Q I S D where
  trees : Trees I S D
  forLoop : Option I × Option Expr × Option Expr → S → Q S
  asDeclaration : Q S → Q D
  stops : Option Kind → P Bool
  /-- Reads on behind an error in a declaration. -/
  attempt : Nat → Q D → P (Option D)
  /-- Declarations between braces. -/
  enclose : P (List D) → Q (List D)
  spentDeclaration : P (Option D)
  spentStatement : Q S
  spentBlock : Q (List D)
  spentDeclarations : P (List D)

namespace Assembly

variable {P Q : Type → Type} [Monad P] [Monad Q] {I S D : Type} (assembly : Assembly P Q I S D)

mutual

/-- A declaration or a statement; nothing after an error. -/
def declaration : Nat → P (Option D)
  | 0 => assembly.spentDeclaration
  | n + 1 => assembly.attempt n do
    match ← assembly.accept (.keyword .fun_) with
    | some _ =>
      let (name, names) ← assembly.signature n
      let body ← block n
      return assembly.trees.function name names body
    | none =>
      match ← assembly.accept (.keyword .var) with
      | some _ => assembly.var n
      | none => assembly.asDeclaration (statement n)

/-- A statement. -/
def statement : Nat → Q S
  | 0 => assembly.spentStatement
  | n + 1 => do
    match ← assembly.opening with
    | none => assembly.value n
    | some .forLoop =>
      let clauses ← assembly.forClauses n
      let body ← statement n
      assembly.forLoop clauses body
    | some .branch =>
      let condition ← assembly.condition n .openParenAfterIf .closeParenAfterIf
      let consequent ← statement n
      match ← assembly.accept (.keyword .else_) with
      | some _ =>
        let alternative ← statement n
        return assembly.trees.branch condition consequent (some alternative)
      | none => return assembly.trees.branch condition consequent none
    | some .loop =>
      let condition ← assembly.condition n .openParenAfterWhile .closeParenAfterWhile
      let body ← statement n
      return assembly.trees.loop condition body
    | some (.return_ keyword) => assembly.return_ n keyword
    | some .print => assembly.print n
    | some .block =>
      let body ← block n
      return assembly.trees.block body

/-- What follows an opening brace, with the closing one. -/
def block : Nat → Q (List D)
  | 0 => assembly.spentBlock
  | n + 1 => do
    let body ← assembly.enclose (declarations n (some .rightBrace))
    let _ ← assembly.expect .rightBrace .closeBrace
    return body

/-- Declarations up to the end or to a token of the closing kind, if there is one. -/
def declarations : Nat → (closing : Option Kind) → P (List D)
  | 0, _ => assembly.spentDeclarations
  | n + 1, closing => do
    if ← assembly.stops closing then return []
    else
      let first ← declaration n
      let others ← declarations n closing
      return first.toList ++ others

end

end Assembly

/-! ## The parser itself -/

namespace Parser

/-- Reads an equals sign, if there is one, and gives the tokens from it on. -/
def equals : Parser (Option (List Token)) := do
  let here ← ahead
  match ← accept .equal with
  | none => return none
  | some _ => return some here

/-- Whether declarations stop at the tokens ahead. -/
def stops (closing : Option Kind) : Parser Bool := do
  match (← ahead).head? with
  | none => return true
  | some token => return decide (closing = some token.kind)

/-- The readings of the parser. -/
def reader : Reader Parser (List Token) where
  spent what := raise (.expected what)
  raise what := raise (.expected what)
  report := report
  next := ahead
  isNext := isNext
  accept := accept
  acceptAny := acceptAny
  equals := equals
  constant := acceptMap Constant.ofToken?
  opening := acceptMap Opening.ofToken?
  expect := expect
  stops := stops
  node make := return make none

/-- What the parser makes its rules for statements of, for any kind of trees. -/
def assemblyOf {I S D : Type} (trees : Trees I S D) (asDeclaration : Parser S → Parser D) :
    Assembly Parser Parser I S D where
  toParts := reader.parts (fun _ => expression) (fun _ => reader.signature fun tokens =>
    reader.parameters (allowance tokens) 0 tokens) trees
  trees := trees
  forLoop clauses body := return trees.forLoop clauses.1 clauses.2.1 clauses.2.2 body
  asDeclaration := asDeclaration
  stops := reader.stops
  attempt _ := recovering
  enclose := id
  spentDeclaration := recovering (reader.spent .expression)
  spentStatement := reader.spent .expression
  spentBlock := reader.spent .closeBrace
  spentDeclarations := pure []

/-- What the parser makes its rules for statements of. -/
def assembly : Assembly Parser Parser Stmt Stmt Stmt := assemblyOf .plain id

/-! ### Its rules -/

section

variable {α : Type}

/-- The place of an equals sign is where the tokens were before it. -/
lemma equals_bind (next : Option (List Token) → Parser α) :
    equals >>= next = (do
      let place ← ahead
      let found ← accept .equal
      next (found.map fun _ => place)) := by
  funext tokens
  cases tokens with
  | nil => rfl
  | cons token rest =>
      simp only [Bind.bind, Parser.bind, equals, ahead, accept, acceptMap]
      by_cases equal : token.kind = .equal
      · rw [if_pos equal]
        rfl
      · rw [if_neg equal]
        rfl

/-- Looking at where the parser is may wait until there is something to tell of. -/
lemma told_bind (c : Prop) [Decidable c] (error : SyntaxError) (next : Parser α) :
    (do
      let _ ← if c then ahead >>= report error else pure ()
      next) = (do
      let here ← ahead
      let _ ← if c then report error here else pure ()
      next) := by
  split <;> rfl

/-- Whether declarations stop is what the next token says. -/
lemma stops_bind (closing : Option Kind) (last others : Parser α) :
    (do if ← stops closing then last else others) = (do
      match (← ahead).head? with
      | none => last
      | some token => if closing = some token.kind then last else others) := by
  funext tokens
  cases tokens with
  | nil => rfl
  | cons token rest =>
      simp only [Bind.bind, Parser.bind, stops, ahead, List.head?_cons]
      by_cases closed : closing = some token.kind
      · rw [if_pos closed, decide_eq_true closed]
        rfl
      · rw [if_neg closed, decide_eq_false closed]
        rfl

end

/-- With `n` steps, the rules for expressions are those of the parser. -/
structure ReaderRules (n : Nat) : Prop where
  assignment : reader.assignment n = assignment n
  operation : ∀ levels, reader.operation n levels = operation n levels
  chain : ∀ level tighter left, reader.chain n level tighter left = chain n level tighter left
  unary : reader.unary n = unary n
  calls : ∀ callee, reader.calls n callee = calls n callee
  arguments : ∀ count, reader.arguments n count = arguments n count
  primary : reader.primary n = primary n
  parameters : ∀ count, reader.parameters n count = parameters n count

/-- **The rules for expressions are those of the parser.** -/
theorem reader_rules (n : Nat) : ReaderRules n := by
  induction n with
  | zero => constructor <;> intros <;> rfl
  | succ n ih =>
      constructor
      case assignment =>
        rw [Reader.assignment, assignment, ih.operation, ih.assignment]
        refine congrArg _ (funext fun target => (equals_bind _).trans ?_)
        refine congrArg _ (funext fun place => congrArg _ (funext fun found => ?_))
        cases found <;> rfl
      case operation =>
        intro levels
        cases levels with
        | nil => rw [Reader.operation, operation, ih.unary]
        | cons level tighter =>
            rw [Reader.operation, operation, ih.operation]
            exact congrArg _ (funext fun left => ih.chain level tighter left)
      case chain =>
        intro level tighter left
        rw [Reader.chain, chain, ih.operation]
        simp only [ih.chain]
        rfl
      case unary =>
        rw [Reader.unary, unary, ih.unary, ih.primary]
        simp only [ih.calls]
        rfl
      case calls =>
        intro callee
        rw [Reader.calls, calls, ih.arguments]
        simp only [ih.calls]
        rfl
      case arguments =>
        intro count
        rw [Reader.arguments, arguments, ih.assignment]
        simp only [ih.arguments]
        exact told_bind _ _ _
      case primary =>
        rw [Reader.primary, primary, ih.assignment]
        rfl
      case parameters =>
        intro count
        rw [Reader.parameters, parameters]
        simp only [ih.parameters]
        exact told_bind _ _ _

lemma assembly_signature (n : Nat) : assembly.signature n = signature := by
  have names : (fun tokens => reader.parameters (allowance tokens) 0 tokens) =
      fun tokens => parameters (allowance tokens) 0 tokens :=
    funext fun tokens => congrFun ((reader_rules _).parameters 0) tokens
  exact congrArg reader.signature names

/-- With `n` steps, the rules for statements are those of the parser. -/
structure AssemblyRules (n : Nat) : Prop where
  declaration : assembly.declaration n = declaration n
  statement : assembly.statement n = statement n
  block : assembly.block n = block n
  declarations : ∀ closing, assembly.declarations n closing = declarations n closing

/-- **The rules for statements are those of the parser.** -/
theorem assembly_rules (n : Nat) : AssemblyRules n := by
  induction n with
  | zero => exact ⟨rfl, rfl, rfl, fun _ => rfl⟩
  | succ n ih =>
      constructor
      case declaration =>
        rw [Assembly.declaration, declaration, ih.block, ih.statement, assembly_signature]
        rfl
      case statement =>
        rw [Assembly.statement, statement, ih.block, ih.statement]
        rfl
      case block =>
        rw [Assembly.block, block, ih.declarations]
        rfl
      case declarations =>
        intro closing
        rw [Assembly.declarations, declarations, ih.declaration, ih.declarations]
        exact stops_bind closing _ _

end Parser

end LoxLang
