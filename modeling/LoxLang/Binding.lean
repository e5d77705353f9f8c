import LoxLang.Program.Tree

/-!
# Binding occurrences to scopes

Which scope a local variable belongs to is settled before a program runs.  Each block and each
function body is a scope; the globals are not, and a name found in no scope is one of them.

* `Frames` — the names declared so far in the scopes around a place, the innermost first.
* `Stmt.declared` — the names that a statement adds to the scope it stands in.
* **`Expr.bound`** and **`Stmt.bound`** — the tree with the hops of every local occurrence.
* **`Stmt.mistakes`** — names declared twice in a scope, variables read in their own initializer, and
  returns outside of functions.

The tree and the mistakes are two independent results of the same walk: what is declared where does
not depend on either.
-/

namespace LoxLang

/-- What is wrong with the use of names. -/
inductive ScopeError where
  | declaredTwice
  | ownInitializer
  | returnOutside
  deriving DecidableEq, Repr

/-- The wording of a scope error. -/
def ScopeError.message : ScopeError → String
  | declaredTwice => "Already a variable with this name in this scope."
  | ownInitializer => "Can't read local variable in its own initializer."
  | returnOutside => "Can't return from top-level code."

/-- A scope error and the token it stands at. -/
structure ScopeReport where
  error : ScopeError
  place : Token
  deriving DecidableEq, Repr

/-- The names declared so far in the scopes around a place, the innermost first. -/
abbrev Frames := List (List String)

namespace Frames

/-- How many scopes lie between a place and the nearest one that declares a name. -/
def hops? (frames : Frames) (name : String) : Option Nat :=
  frames.findIdx? (·.contains name)

/-- Adds a name to the innermost scope; global names are not kept. -/
def declare (frames : Frames) (name : Token) : Frames :=
  match frames with
  | [] => []
  | innermost :: others => (name.lexeme :: innermost) :: others

/-- Whether the innermost scope declares a name. -/
def declares (frames : Frames) (name : Token) : Bool :=
  frames.head?.any (·.contains name.lexeme)

/-- The frames inside a function. -/
def enter (frames : Frames) (parameters : List Token) : Frames :=
  parameters.foldl declare ([] :: frames)

/-- A report if a name is declared once more in its scope. -/
def declaredTwice (frames : Frames) (name : Token) : List ScopeReport :=
  if frames.declares name then [⟨.declaredTwice, name⟩] else []

/-- Reports for parameters with the same name. -/
def repeated (frames : Frames) : List Token → List ScopeReport
  | [] => []
  | first :: others => frames.declaredTwice first ++ repeated (frames.declare first) others

/-- The name that must not be read in the initializer of a variable: its own, if it is local and new
in its scope. -/
def unready? (frames : Frames) (name : Token) : Option String :=
  if frames.isEmpty || frames.declares name then none else some name.lexeme

end Frames

/-! ## What a statement declares -/

mutual

/-- The names that a statement adds to the scope it stands in. -/
def Stmt.declared : Stmt → List Token
  | .variable name _ => [name]
  | .function name _ _ => [name]
  | .branch _ consequent alternative => consequent.declared ++ Stmt.declared? alternative
  | .loop _ body => body.declared
  | .expression _ => []
  | .print _ => []
  | .block _ => []
  | .return_ _ _ => []

/-- The names that a statement which may be missing adds to its scope. -/
def Stmt.declared? : Option Stmt → List Token
  | none => []
  | some stmt => stmt.declared

end

/-- The frames behind a statement. -/
def Frames.behind (frames : Frames) (stmt : Stmt) : Frames := stmt.declared.foldl declare frames

/-! ## Hops -/

mutual

/-- An expression with the hops of its local occurrences.  Others keep what they have. -/
def Expr.bound (frames : Frames) : Expr → Expr
  | .literal value => .literal value
  | .group inner => .group (inner.bound frames)
  | .unary operator operand => .unary operator (operand.bound frames)
  | .binary left operator right => .binary (left.bound frames) operator (right.bound frames)
  | .logical left operator right => .logical (left.bound frames) operator (right.bound frames)
  | .variable name hops => .variable name ((frames.hops? name.lexeme).or hops)
  | .assign name value hops =>
    .assign name (value.bound frames) ((frames.hops? name.lexeme).or hops)
  | .call callee paren arguments =>
    .call (callee.bound frames) paren (Expr.boundAll frames arguments)

/-- Arguments with the hops of their local occurrences. -/
def Expr.boundAll (frames : Frames) : List Expr → List Expr
  | [] => []
  | first :: others => first.bound frames :: Expr.boundAll frames others

end

mutual

/-- A statement with the hops of its local occurrences.  A variable counts as declared in its own
initializer, a function in its own body. -/
def Stmt.bound (frames : Frames) : Stmt → Stmt
  | .expression value => .expression (value.bound frames)
  | .print value => .print (value.bound frames)
  | .variable name initializer =>
    .variable name (initializer.map (Expr.bound (frames.declare name)))
  | .block body => .block (Stmt.boundAll ([] :: frames) body)
  | .branch condition consequent alternative =>
    .branch (condition.bound frames) (consequent.bound frames)
      (Stmt.bound? (frames.behind consequent) alternative)
  | .loop condition body => .loop (condition.bound frames) (body.bound frames)
  | .function name parameters body =>
    .function name parameters
      (Stmt.boundAll ((frames.declare name).enter parameters) body)
  | .return_ keyword value => .return_ keyword (value.map (Expr.bound frames))

/-- Statements with the hops of their local occurrences. -/
def Stmt.boundAll (frames : Frames) : List Stmt → List Stmt
  | [] => []
  | first :: others => first.bound frames :: Stmt.boundAll (frames.behind first) others

/-- A statement that may be missing with the hops of its local occurrences. -/
def Stmt.bound? (frames : Frames) : Option Stmt → Option Stmt
  | none => none
  | some stmt => some (stmt.bound frames)

end

/-! ## Mistakes -/

mutual

/-- The reads of the name `unready`, which the variable being initialized has, in an expression. -/
def Expr.mistakes (unready : Option String) : Expr → List ScopeReport
  | .literal _ => []
  | .group inner => inner.mistakes unready
  | .unary _ operand => operand.mistakes unready
  | .binary left _ right => left.mistakes unready ++ right.mistakes unready
  | .logical left _ right => left.mistakes unready ++ right.mistakes unready
  | .variable name _ => if unready = some name.lexeme then [⟨.ownInitializer, name⟩] else []
  | .assign _ value _ => value.mistakes unready
  | .call callee _ arguments => callee.mistakes unready ++ Expr.mistakesAll unready arguments

/-- The reads of the name `unready` in arguments. -/
def Expr.mistakesAll (unready : Option String) : List Expr → List ScopeReport
  | [] => []
  | first :: others => first.mistakes unready ++ Expr.mistakesAll unready others

end

/-- The reads of the name `unready` in an expression that may be missing. -/
def Expr.mistakes? (unready : Option String) (value : Option Expr) : List ScopeReport :=
  match value with
  | some value => value.mistakes unready
  | none => []

mutual

/-- The scope errors in a statement, in the order of the source. -/
def Stmt.mistakes (frames : Frames) (inFunction : Bool) : Stmt → List ScopeReport
  | .expression value => value.mistakes none
  | .print value => value.mistakes none
  | .variable name initializer =>
    frames.declaredTwice name ++ Expr.mistakes? (frames.unready? name) initializer
  | .block body => Stmt.mistakesAll ([] :: frames) inFunction body
  | .branch condition consequent alternative =>
    condition.mistakes none ++ consequent.mistakes frames inFunction
      ++ Stmt.mistakes? (frames.behind consequent) inFunction alternative
  | .loop condition body => condition.mistakes none ++ body.mistakes frames inFunction
  | .function name parameters body =>
    let inside := frames.declare name
    frames.declaredTwice name ++ Frames.repeated ([] :: inside) parameters
      ++ Stmt.mistakesAll (inside.enter parameters) true body
  | .return_ keyword value =>
    (if inFunction then [] else [⟨.returnOutside, keyword⟩]) ++ Expr.mistakes? none value

/-- The scope errors in statements. -/
def Stmt.mistakesAll (frames : Frames) (inFunction : Bool) : List Stmt → List ScopeReport
  | [] => []
  | first :: others =>
    first.mistakes frames inFunction ++ Stmt.mistakesAll (frames.behind first) inFunction others

/-- The scope errors in a statement that may be missing. -/
def Stmt.mistakes? (frames : Frames) (inFunction : Bool) : Option Stmt → List ScopeReport
  | none => []
  | some stmt => stmt.mistakes frames inFunction

end

namespace Program

/-- A program with the hops of its local occurrences. -/
def bound (program : List Stmt) : List Stmt := Stmt.boundAll [] program

/-- The scope errors in a program. -/
def mistakes (program : List Stmt) : List ScopeReport := Stmt.mistakesAll [] false program

end Program

end LoxLang
