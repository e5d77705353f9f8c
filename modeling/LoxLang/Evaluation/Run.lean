import LoxLang.Evaluation.Machine

/-!
# Running programs

* **`Action.evaluate`** — what an expression yields.
* **`Action.execute`** — what a statement does, and whether it returned from the function around it.
* **`Machine.interpret`** — a whole program, after which the sink is flushed in any case.

Programs need not end, so every function here counts down an allowance and stops at zero.  A larger
allowance never changes an outcome other than that.
-/

namespace LoxLang

/-- How a statement ends when nothing goes wrong. -/
inductive Completion where
  | normal
  | returned (value : Value)

namespace Action

mutual

/-- What an expression yields. -/
def evaluate : Nat → Expr → Action Value
  | 0, _ => exhausted
  | _ + 1, .literal value => pure value.value
  | n + 1, .group inner => evaluate n inner
  | n + 1, .unary operator operand => do
    let operand ← evaluate n operand
    ofExcept operator (operand.prefixed operator.kind)
  | n + 1, .binary left operator right => do
    let left ← evaluate n left
    let right ← evaluate n right
    ofExcept operator (left.combined operator.kind right)
  | n + 1, .logical left operator right => do
    let left ← evaluate n left
    if left.isTruthy == (operator.kind == .keyword .or) then return left
    else evaluate n right
  | _ + 1, .variable name hops => look name hops
  | n + 1, .assign name value hops => do
    let value ← evaluate n value
    assign name hops value
    return value
  | n + 1, .call callee paren arguments => do
    let callee ← evaluate n callee
    let arguments ← evaluateAll n arguments
    call n callee paren arguments

/-- What expressions yield, from the first to the last. -/
def evaluateAll : Nat → List Expr → Action (List Value)
  | 0, _ => exhausted
  | _ + 1, [] => return []
  | n + 1, first :: others => do
    let first ← evaluate n first
    let others ← evaluateAll n others
    return first :: others

/-- What a call yields whose parts have been evaluated. -/
def call : Nat → Value → Token → List Value → Action Value
  | 0, _, _, _ => exhausted
  | n + 1, .function _ closure, paren, arguments =>
    if arguments.length = closure.parameters.length then do
      let scope ← openScope closure.scope
      bindAll scope closure.parameters arguments
      match ← within scope (executeAll n closure.body) with
      | .normal => return .nil
      | .returned value => return value
    else fail (.wrongCount closure.parameters.length arguments.length) paren
  | _ + 1, .native index arity, paren, arguments =>
    if arguments.length = arity then callNative index paren arguments
    else fail (.wrongCount arity arguments.length) paren
  | _ + 1, _, paren, _ => fail .notCallable paren

/-- What a statement does. -/
def execute : Nat → Stmt → Action Completion
  | 0, _ => exhausted
  | n + 1, .expression value => do
    let _ ← evaluate n value
    return .normal
  | n + 1, .print value => do
    let value ← evaluate n value
    print value.shown
    return .normal
  | n + 1, .variable name initializer => do
    let value ← evaluateOr n initializer
    define name value
    return .normal
  | n + 1, .block body => do
    let scope ← openScope (← current)
    within scope (executeAll n body)
  | n + 1, .branch condition consequent alternative => do
    let condition ← evaluate n condition
    if condition.isTruthy then execute n consequent
    else
      match alternative with
      | some alternative => execute n alternative
      | none => return .normal
  | n + 1, .loop condition body => do
    let holds ← evaluate n condition
    if holds.isTruthy then
      match ← execute n body with
      | .normal => execute n (.loop condition body)
      | .returned value => return .returned value
    else return .normal
  | _ + 1, .function name parameters body => do
    declare name parameters body
    return .normal
  | n + 1, .return_ _ value => do
    let value ← evaluateOr n value
    return .returned value

/-- What an expression yields that may be missing; nil if it is. -/
def evaluateOr : Nat → Option Expr → Action Value
  | 0, _ => exhausted
  | _ + 1, none => return .nil
  | n + 1, some value => evaluate n value

/-- What statements do, up to the first that returns. -/
def executeAll : Nat → List Stmt → Action Completion
  | 0, _ => exhausted
  | _ + 1, [] => return .normal
  | n + 1, first :: others => do
    match ← execute n first with
    | .normal => executeAll n others
    | .returned value => return .returned value

end

end Action

namespace Machine

/-- Passes on what the sink keeps back.  A refusal takes the place of what went wrong before. -/
def flush (fault : Option Fault) (machine : Machine) : Option Fault × Machine :=
  match machine.sink.flush with
  | (none, sink) => (fault, { machine with sink })
  | (some error, sink) => (some (.output error), { machine with sink })

end Machine

/-- What is left of a run once the sink is flushed: what went wrong, if anything, and nothing at all when
the allowance is used up. -/
def Outcome.flushed {α : Type} : Outcome α → Option (Option Fault × Machine)
  | done _ machine => some (machine.flush none)
  | failed fault machine => some (machine.flush (some fault))
  | exhausted => none

/-- Runs a program and flushes the sink.  A return outside of functions ends the program. -/
def Machine.interpret (allowance : Nat) (program : List Stmt) (machine : Machine) :
    Option (Option Fault × Machine) :=
  (Action.executeAll allowance program machine).flushed

end LoxLang
