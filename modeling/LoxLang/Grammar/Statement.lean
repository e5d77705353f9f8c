import LoxLang.Grammar.Expression

/-!
# The grammar of programs

```
program     → declaration* END
declaration → "fun" IDENTIFIER "(" ( IDENTIFIER ( "," IDENTIFIER )* )? ")" block
            | "var" IDENTIFIER ( "=" expression )? ";"
            | statement
statement   → "for" "(" ( ";" | "var" … ";" | expression ";" ) expression? ";" expression? ")" statement
            | "if" "(" expression ")" statement ( "else" statement )?
            | "while" "(" expression ")" statement
            | "return" expression? ";"
            | block
            | "print" expression ";"
            | expression ";"
block       → "{" declaration* "}"
```

* **`Program.parse`** — the statements of a token list and the errors in it.
* **`Program.parseExpression`** — the one expression that a token list consists of.

Reading stops at the first end mark.  An error costs the innermost declaration that it stands in.
-/

namespace LoxLang

namespace Parser

/-- What the first token of a statement announces. -/
inductive Opening where
  | forLoop
  | branch
  | loop
  | return_ (keyword : Token)
  | print
  | block

/-- What a token announces at the start of a statement; most announce an expression. -/
def Opening.ofToken? (token : Token) : Option Opening :=
  match token.kind with
  | .keyword .for_ => some .forLoop
  | .keyword .if_ => some .branch
  | .keyword .while_ => some .loop
  | .keyword .return_ => some (.return_ token)
  | .keyword .print => some .print
  | .leftBrace => some .block
  | _ => none

/-- An expression, unless a token of kind `closing` shows that it was left out. -/
def clause (closing : Kind) : Parser (Option Expr) := do
  if ← isNext closing then return none
  else some <$> expression

/-- What follows `var`. -/
def variableDeclaration : Parser Stmt := do
  let name ← expect .identifier .variableName
  let initializer ← match ← accept .equal with
    | some _ => some <$> expression
    | none => pure none
  let _ ← expect .semicolon .semicolonAfterVariable
  return .variable name initializer

/-- An expression as a statement. -/
def expressionStatement : Parser Stmt := do
  let value ← expression
  let _ ← expect .semicolon .semicolonAfterExpression
  return .expression value

/-- What follows `print`. -/
def printStatement : Parser Stmt := do
  let value ← expression
  let _ ← expect .semicolon .semicolonAfterPrint
  return .print value

/-- What follows the token `return`. -/
def returnStatement (keyword : Token) : Parser Stmt := do
  let value ← clause .semicolon
  let _ ← expect .semicolon .semicolonAfterReturn
  return .return_ keyword value

/-- A condition in parentheses. -/
def condition (opening closing : Expectation) : Parser Expr := do
  let _ ← expect .leftParen opening
  let value ← expression
  let _ ← expect .rightParen closing
  return value

/-- Parameter names separated by commas, of which `count` have been read before. -/
def parameters : Nat → (count : Nat) → Parser (List Token)
  | 0, _ => raise (.expected .parameterName)
  | n + 1, count => do
    let here ← ahead
    let _ ← if maxArguments ≤ count then report .tooManyParameters here else pure ()
    let first ← expect .identifier .parameterName
    match ← accept .comma with
    | none => return [first]
    | some _ =>
      let others ← parameters n (count + 1)
      return first :: others

/-- A name with parameters, up to the opening brace of the body. -/
def signature : Parser (Token × List Token) := do
  let name ← expect .identifier .functionName
  let _ ← expect .leftParen .openParenAfterFunctionName
  let names ← if ← isNext .rightParen then pure [] else
    fun tokens => parameters (allowance tokens) 0 tokens
  let _ ← expect .rightParen .closeParenAfterParameters
  let _ ← expect .leftBrace .openBraceOfFunction
  return (name, names)

/-- The first clause of a `for` loop, with its semicolon. -/
def forInitializer : Parser (Option Stmt) := do
  match ← accept .semicolon with
  | some _ => return none
  | none =>
    match ← accept (.keyword .var) with
    | some _ => some <$> variableDeclaration
    | none => some <$> expressionStatement

/-- The clauses of a `for` loop, in their parentheses. -/
def forClauses : Parser (Option Stmt × Option Expr × Option Expr) := do
  let _ ← expect .leftParen .openParenAfterFor
  let initializer ← forInitializer
  let condition ← clause .semicolon
  let _ ← expect .semicolon .semicolonAfterForCondition
  let increment ← clause .rightParen
  let _ ← expect .rightParen .closeParenAfterFor
  return (initializer, condition, increment)

mutual

/-- A declaration or a statement; nothing after an error. -/
def declaration : Nat → Parser (Option Stmt)
  | 0 => recovering (raise (.expected .expression))
  | n + 1 => recovering do
    match ← accept (.keyword .fun_) with
    | some _ =>
      let (name, names) ← signature
      let body ← block n
      return .function name names body
    | none =>
      match ← accept (.keyword .var) with
      | some _ => variableDeclaration
      | none => statement n

/-- A statement. -/
def statement : Nat → Parser Stmt
  | 0 => raise (.expected .expression)
  | n + 1 => do
    match ← acceptMap Opening.ofToken? with
    | none => expressionStatement
    | some .forLoop =>
      let (initializer, condition, increment) ← forClauses
      let body ← statement n
      return .forLoop initializer condition increment body
    | some .branch =>
      let condition ← condition .openParenAfterIf .closeParenAfterIf
      let consequent ← statement n
      match ← accept (.keyword .else_) with
      | some _ =>
        let alternative ← statement n
        return .branch condition consequent (some alternative)
      | none => return .branch condition consequent none
    | some .loop =>
      let condition ← condition .openParenAfterWhile .closeParenAfterWhile
      let body ← statement n
      return .loop condition body
    | some (.return_ keyword) => returnStatement keyword
    | some .print => printStatement
    | some .block =>
      let body ← block n
      return .block body

/-- What follows an opening brace, with the closing one. -/
def block : Nat → Parser (List Stmt)
  | 0 => raise (.expected .closeBrace)
  | n + 1 => do
    let body ← declarations n (some .rightBrace)
    let _ ← expect .rightBrace .closeBrace
    return body

/-- Declarations up to the end or to a token of the closing kind, if there is one. -/
def declarations : Nat → (closing : Option Kind) → Parser (List Stmt)
  | 0, _ => pure []
  | n + 1, closing => do
    match (← ahead).head? with
    | none => return []
    | some token =>
      if closing = some token.kind then return []
      else
        let first ← declaration n
        let others ← declarations n closing
        return first.toList ++ others

end

end Parser

/-! ## Whole inputs -/

/-- What was read from a whole input, with its errors. -/
structure Parsed (α : Type) where
  tree : α
  reports : List SyntaxReport

namespace Program

/-- The tokens before the first end mark. -/
def beforeEnd (tokens : List Token) : List Token := tokens.takeWhile (!·.isEnd)

/-- The first end mark. -/
def endMark (tokens : List Token) : Token := (tokens.find? Token.isEnd).getD (.endMark 1)

/-- The statements of a program, without those that an error stands in. -/
def parse (tokens : List Token) : Parsed (List Stmt) :=
  let input := beforeEnd tokens
  match Parser.declarations (Parser.allowance input) none input with
  | ⟨reports, _, .ok statements⟩ => ⟨statements, reports⟩
  | ⟨reports, rest, .error error⟩ => ⟨[], reports ++ [⟨error, rest⟩]⟩

/-- The expression that the tokens consist of, unless an error stops it. -/
def parseExpression (tokens : List Token) : Parsed (Option Expr) :=
  match Parser.expression (beforeEnd tokens) with
  | ⟨reports, [], .ok value⟩ => ⟨some value, reports⟩
  | ⟨reports, rest, .ok _⟩ => ⟨none, reports ++ [⟨.expected .endOfExpression, rest⟩]⟩
  | ⟨reports, rest, .error error⟩ => ⟨none, reports ++ [⟨error, rest⟩]⟩

end Program

end LoxLang
