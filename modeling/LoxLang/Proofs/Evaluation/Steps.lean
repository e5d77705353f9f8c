import Mathlib.Tactic.Lemma
import LoxLang.Evaluation.Run
import LoxLang.Program.Occurrence

/-!
# Runs made of other steps

What a run of a program does can be told by another run of it, one whose steps note what they do, or
that finds the hops of a variable elsewhere.  The rules by which expressions, calls and statements put
steps together are the same for every kind of steps, so they are written here once.

* `Point` — what a kind of steps can take notice of on the way through a program.
* `Steps` — a kind of steps: what becomes of the steps of a run, and what happens around each point.
* `Steps.ofExpr`, `Steps.ofCall`, `Steps.choosing`, `Steps.repeating` and the others — the rules.
* `Steps.evaluate`, `Steps.execute` and the other functions of a run, made of such steps.
* `Steps.own` — the steps of the program itself; `Steps.own_run`, their runs are the runs of the program.
* `Steps.Follows` — a relation between two kinds of steps that putting steps together keeps.
* **`Steps.Follows.run`**, **`Steps.Follows.program`** — it relates every run of the one kind to the run
  of the other, and to the run of the program.
-/

namespace LoxLang

/-- The steps that a run is made of, apart from printing and from steps in another scope. -/
inductive Action.Basic : {α : Type} → Action α → Prop where
  | exhausted {α : Type} : Basic (Action.exhausted : Action α)
  | fail {α : Type} (error : RuntimeError) (place : Token) : Basic (Action.fail error place : Action α)
  | ofExcept {α : Type} (place : Token) (result : Except RuntimeError α) :
      Basic (Action.ofExcept place result)
  | define (name : Token) (value : Value) : Basic (Action.define name value)
  | declare (name : Token) (parameters : List Token) (body : List Stmt) :
      Basic (Action.declare name parameters body)
  | openScope (outer : Nat) : Basic (Action.openScope outer)
  | current : Basic Action.current
  | bindAll (scope : Nat) (parameters : List Token) (arguments : List Value) :
      Basic (Action.bindAll scope parameters arguments)
  | callNative (index : Nat) (paren : Token) (arguments : List Value) :
      Basic (Action.callNative index paren arguments)

/-- What a kind of steps can take notice of. -/
inductive Point where
  /-- An expression, a statement begins. -/
  | expression (value : Expr)
  | statement (stmt : Stmt)
  /-- The part of a statement with this index, in a body the first statement. -/
  | part (index : Nat)
  /-- What follows in a body behind its first statement. -/
  | next
  /-- Both operands of an operator are known. -/
  | meets (operator : Token) (left right : Value)
  | declares (name : Token) (parameters : List Token) (body : List Stmt)
  /-- The body of a function that was declared as the event of this number. -/
  | enters (event : Nat)
  /-- The value of a return is known. -/
  | returns (value : Value)
  /-- The call of a function yields a value. -/
  | leaves (event : Nat) (value : Value)

/-- A kind of steps. -/
structure Steps (M : Type → Type) where
  /-- What becomes of a basic step. -/
  basic : {α : Type} → Action α → M α
  within : {α : Type} → Nat → M α → M α
  print : String → M Unit := fun text => basic (.print text)
  look : Token → Option Nat → M Value := fun name hops => basic (.look name hops)
  assign : Token → Option Nat → Value → M Unit := fun name hops value => basic (.assign name hops value)
  /-- What happens around a point.  The step is what is behind it. -/
  around : {α : Type} → Point → M α → M α := fun _ step => step

namespace Steps

/-- The steps of the program itself. -/
def own : Steps Action where
  basic := id
  within := Action.within

variable {M : Type → Type} [Monad M] (steps : Steps M)

/-! ## Rules

Each says what comes of a form of the language, given what comes of its parts.
-/

/-- What an expression yields. -/
def ofExpr (evaluate : Expr → M Value) (evaluateAll : List Expr → M (List Value))
    (call : Value → Token → List Value → M Value) : Expr → M Value
  | .literal value => pure value.value
  | .group inner => evaluate inner
  | .unary operator operand => do
    let operand ← evaluate operand
    steps.basic (.ofExcept operator (operand.prefixed operator.kind))
  | .binary left operator right => do
    let left ← evaluate left
    let right ← evaluate right
    steps.around (.meets operator left right)
      (steps.basic (.ofExcept operator (left.combined operator.kind right)))
  | .logical left operator right => do
    let left ← evaluate left
    if left.isTruthy == (operator.kind == .keyword .or) then return left
    else evaluate right
  | .variable name hops => steps.look name hops
  | .assign name value hops => do
    let value ← evaluate value
    steps.assign name hops value
    return value
  | .call callee paren arguments => do
    let callee ← evaluate callee
    let arguments ← evaluateAll arguments
    call callee paren arguments

/-- What expressions yield, from the first to the last. -/
def ofExprs (evaluate : Expr → M Value) (evaluateAll : List Expr → M (List Value)) :
    List Expr → M (List Value)
  | [] => return []
  | first :: others => do
    let first ← evaluate first
    let others ← evaluateAll others
    return first :: others

/-- What an expression yields that may be missing; nil if it is. -/
def ofOption (evaluate : Expr → M Value) : Option Expr → M Value
  | none => return .nil
  | some value => evaluate value

/-- What a call yields whose parts have been evaluated. -/
def ofCall (body : Nat → Closure → M Completion) : Value → Token → List Value → M Value
  | .function event closure, paren, arguments =>
    if arguments.length = closure.parameters.length then do
      let scope ← steps.basic (.openScope closure.scope)
      steps.basic (.bindAll scope closure.parameters arguments)
      steps.around (.enters event) do
        match ← steps.within scope (body event closure) with
        | .normal => steps.around (.leaves event .nil) (return .nil)
        | .returned value => steps.around (.leaves event value) (return value)
    else steps.basic (.fail (.wrongCount closure.parameters.length arguments.length) paren)
  | .native index arity, paren, arguments =>
    if arguments.length = arity then steps.basic (.callNative index paren arguments)
    else steps.basic (.fail (.wrongCount arity arguments.length) paren)
  | _, paren, _ => steps.basic (.fail .notCallable paren)

/-- A value that is not used. -/
def dropping (value : M Value) : M Completion := do
  let _ ← value
  return .normal

/-- Prints a value. -/
def printing (value : M Value) : M Completion := do
  let value ← value
  steps.print value.shown
  return .normal

/-- Binds a name to a value. -/
def defining (name : Token) (value : M Value) : M Completion := do
  let value ← value
  steps.basic (.define name value)
  return .normal

/-- Binds a name to a new function. -/
def declaring (name : Token) (parameters : List Token) (body : List Stmt) : M Completion := do
  steps.around (.declares name parameters body) (steps.basic (.declare name parameters body))
  return .normal

/-- Statements in a scope of their own. -/
def inScope (body : M Completion) : M Completion := do
  let scope ← steps.basic (.openScope (← steps.basic .current))
  steps.within scope body

/-- One of two statements, as a condition has it. -/
def choosing (condition : M Value) (consequent alternative : M Completion) : M Completion := do
  let condition ← condition
  if condition.isTruthy then consequent else alternative

/-- One statement and then, unless it returned, another. -/
def inOrder (first others : M Completion) : M Completion := do
  match ← first with
  | .normal => others
  | .returned value => return .returned value

/-- A statement, if a condition has it, and then it all again, unless the statement returned. -/
def repeating (condition : M Value) (body again : M Completion) : M Completion := do
  let condition ← condition
  if condition.isTruthy then inOrder body again else return .normal

/-- Returns a value. -/
def returning (value : M Value) : M Completion := do
  let value ← value
  steps.around (.returns value) (return .returned value)

/-- What a statement does. -/
def ofStmt (evaluate : Expr → M Value) (evaluateOr : Option Expr → M Value)
    (execute : Stmt → M Completion) (executeAll : List Stmt → M Completion) : Stmt → M Completion
  | .expression value => dropping (evaluate value)
  | .print value => steps.printing (evaluate value)
  | .variable name initializer => steps.defining name (evaluateOr initializer)
  | .block body => steps.inScope (steps.around (.part 0) (executeAll body))
  | .branch condition consequent alternative =>
    choosing (evaluate condition) (steps.around (.part 0) (execute consequent))
      (match alternative with
        | some alternative => steps.around (.part 1) (execute alternative)
        | none => return .normal)
  | .loop condition body =>
    repeating (evaluate condition) (steps.around (.part 0) (execute body))
      (execute (.loop condition body))
  | .function name parameters body => steps.declaring name parameters body
  | .return_ _ value => steps.returning (evaluateOr value)

/-- What statements do, up to the first that returns. -/
def ofStmts (execute : Stmt → M Completion) (executeAll : List Stmt → M Completion) :
    List Stmt → M Completion
  | [] => return .normal
  | first :: others => inOrder (execute first) (steps.around .next (executeAll others))

/-! ## Runs -/

mutual

/-- What an expression yields. -/
def evaluate : Nat → Expr → M Value
  | 0, _ => steps.basic .exhausted
  | n + 1, value => steps.around (.expression value)
      (steps.ofExpr (fun value => evaluate n value) (fun values => evaluateAll n values)
        (fun callee paren arguments => call n callee paren arguments) value)

/-- What expressions yield, from the first to the last. -/
def evaluateAll : Nat → List Expr → M (List Value)
  | 0, _ => steps.basic .exhausted
  | n + 1, values => ofExprs (fun value => evaluate n value) (fun values => evaluateAll n values) values

/-- What a call yields whose parts have been evaluated. -/
def call : Nat → Value → Token → List Value → M Value
  | 0, _, _, _ => steps.basic .exhausted
  | n + 1, callee, paren, arguments =>
    steps.ofCall (fun _ closure => steps.around (.part 0) (executeAll n closure.body)) callee paren
      arguments

/-- What a statement does. -/
def execute : Nat → Stmt → M Completion
  | 0, _ => steps.basic .exhausted
  | n + 1, stmt => steps.around (.statement stmt)
      (steps.ofStmt (fun value => evaluate n value) (fun value => evaluateOr n value)
        (fun stmt => execute n stmt) (fun stmts => executeAll n stmts) stmt)

/-- What an expression yields that may be missing; nil if it is. -/
def evaluateOr : Nat → Option Expr → M Value
  | 0, _ => steps.basic .exhausted
  | n + 1, value => ofOption (fun value => evaluate n value) value

/-- What statements do, up to the first that returns. -/
def executeAll : Nat → List Stmt → M Completion
  | 0, _ => steps.basic .exhausted
  | n + 1, stmts => steps.ofStmts (fun stmt => execute n stmt) (fun stmts => executeAll n stmts) stmts

end

/-! ## The steps of the program -/

/-- With `n` steps allowed, the functions of a run are those of the program. -/
structure Own (n : Nat) : Prop where
  evaluate : own.evaluate n = Action.evaluate n
  evaluateAll : own.evaluateAll n = Action.evaluateAll n
  call : own.call n = Action.call n
  execute : own.execute n = Action.execute n
  evaluateOr : own.evaluateOr n = Action.evaluateOr n
  executeAll : own.executeAll n = Action.executeAll n

/-- **The rules are those of the program.** -/
theorem own_run (n : Nat) : Own n := by
  induction n with
  | zero => exact ⟨funext fun _ => rfl, funext fun _ => rfl, funext fun _ => funext fun _ =>
      funext fun _ => rfl, funext fun _ => rfl, funext fun _ => rfl, funext fun _ => rfl⟩
  | succ n ih =>
      refine ⟨funext fun value => ?_, funext fun values => ?_, funext fun callee => funext fun paren =>
        funext fun arguments => ?_, funext fun stmt => ?_, funext fun value => ?_,
        funext fun stmts => ?_⟩
      · rw [evaluate, ih.evaluate, ih.evaluateAll, ih.call]
        cases value <;> rfl
      · rw [evaluateAll, ih.evaluate, ih.evaluateAll]
        cases values <;> rfl
      · rw [call, ih.executeAll]
        cases callee <;> rfl
      · rw [execute, ih.evaluate, ih.evaluateOr, ih.execute, ih.executeAll]
        cases stmt with
        | branch condition consequent alternative => cases alternative <;> rfl
        | _ => rfl
      · rw [evaluateOr, ih.evaluate]
        cases value <;> rfl
      · rw [executeAll, ih.execute, ih.executeAll]
        cases stmts <;> rfl

/-! ## Relations that runs keep -/

variable {N : Type → Type} [Monad N] {steps} {others : Steps N}

/-- A relation between the steps of two kinds that putting steps together keeps. -/
structure Follows (steps : Steps M) (others : Steps N) (Agree : {α : Type} → M α → N α → Prop) :
    Prop where
  pure {α : Type} (value : α) : Agree (Pure.pure value) (Pure.pure value)
  bind {α β : Type} {step : M α} {step' : N α} {next : α → M β} {next' : α → N β} :
    Agree step step' → (∀ value, Agree (next value) (next' value)) →
      Agree (step >>= next) (step' >>= next')
  basic {α : Type} {action : Action α} : action.Basic → Agree (steps.basic action) (others.basic action)
  within {α : Type} (scope : Nat) {step : M α} {step' : N α} :
    Agree step step' → Agree (steps.within scope step) (others.within scope step')
  print (text : String) : Agree (steps.print text) (others.print text)
  look (name : Token) (hops : Option Nat) : Agree (steps.look name hops) (others.look name hops)
  assign (name : Token) (hops : Option Nat) (value : Value) :
    Agree (steps.assign name hops value) (others.assign name hops value)
  around {α : Type} (point : Point) {step : M α} {step' : N α} :
    Agree step step' → Agree (steps.around point step) (others.around point step')

namespace Follows

variable {Agree : {α : Type} → M α → N α → Prop}

/-! ### Rules -/

section

variable (follows : Follows steps others Agree)

include follows

lemma ofExpr {evaluate : Expr → M Value} {evaluate' : Expr → N Value}
    {evaluateAll : List Expr → M (List Value)} {evaluateAll' : List Expr → N (List Value)}
    {call : Value → Token → List Value → M Value} {call' : Value → Token → List Value → N Value}
    (evaluated : ∀ value, Agree (evaluate value) (evaluate' value))
    (evaluatedAll : ∀ values, Agree (evaluateAll values) (evaluateAll' values))
    (called : ∀ callee paren arguments,
      Agree (call callee paren arguments) (call' callee paren arguments)) (value : Expr) :
    Agree (steps.ofExpr evaluate evaluateAll call value)
      (others.ofExpr evaluate' evaluateAll' call' value) := by
  cases value with
  | literal value => exact follows.pure _
  | group inner => exact evaluated inner
  | unary operator operand =>
      exact follows.bind (evaluated operand) fun _ => follows.basic (.ofExcept _ _)
  | binary left operator right =>
      exact follows.bind (evaluated left) fun _ => follows.bind (evaluated right) fun _ =>
        follows.around _ (follows.basic (.ofExcept _ _))
  | logical left operator right =>
      refine follows.bind (evaluated left) fun value => ?_
      split
      · exact follows.pure _
      · exact evaluated right
  | «variable» name hops => exact follows.look name hops
  | assign name value hops =>
      exact follows.bind (evaluated value) fun _ =>
        follows.bind (follows.assign _ _ _) fun _ => follows.pure _
  | call callee paren arguments =>
      exact follows.bind (evaluated callee) fun _ =>
        follows.bind (evaluatedAll arguments) fun _ => called _ _ _

lemma ofExprs {evaluate : Expr → M Value} {evaluate' : Expr → N Value}
    {evaluateAll : List Expr → M (List Value)} {evaluateAll' : List Expr → N (List Value)}
    (evaluated : ∀ value, Agree (evaluate value) (evaluate' value))
    (evaluatedAll : ∀ values, Agree (evaluateAll values) (evaluateAll' values))
    (values : List Expr) :
    Agree (Steps.ofExprs evaluate evaluateAll values) (Steps.ofExprs evaluate' evaluateAll' values) := by
  cases values with
  | nil => exact follows.pure _
  | cons first others =>
      exact follows.bind (evaluated first) fun _ =>
        follows.bind (evaluatedAll others) fun _ => follows.pure _

lemma ofOption {evaluate : Expr → M Value} {evaluate' : Expr → N Value}
    (evaluated : ∀ value, Agree (evaluate value) (evaluate' value)) (value : Option Expr) :
    Agree (Steps.ofOption evaluate value) (Steps.ofOption evaluate' value) := by
  cases value with
  | none => exact follows.pure _
  | some value => exact evaluated value

lemma ofCall {body : Nat → Closure → M Completion} {body' : Nat → Closure → N Completion}
    (ran : ∀ event closure, Agree (body event closure) (body' event closure)) (callee : Value)
    (paren : Token) (arguments : List Value) :
    Agree (steps.ofCall body callee paren arguments) (others.ofCall body' callee paren arguments) := by
  cases callee with
  | function event closure =>
      simp only [Steps.ofCall]
      split
      · refine follows.bind (follows.basic (.openScope _)) fun scope =>
          follows.bind (follows.basic (.bindAll _ _ _)) fun _ => follows.around _ ?_
        refine follows.bind (follows.within scope (ran event closure)) fun completion => ?_
        cases completion with
        | normal => exact follows.around _ (follows.pure _)
        | returned value => exact follows.around _ (follows.pure _)
      · exact follows.basic (.fail _ _)
  | native index arity =>
      simp only [Steps.ofCall]
      split
      · exact follows.basic (.callNative _ _ _)
      · exact follows.basic (.fail _ _)
  | nil => exact follows.basic (.fail _ _)
  | bool value => exact follows.basic (.fail _ _)
  | number value => exact follows.basic (.fail _ _)
  | text value => exact follows.basic (.fail _ _)

lemma choosing {condition : M Value} {condition' : N Value} {consequent alternative : M Completion}
    {consequent' alternative' : N Completion} (decided : Agree condition condition')
    (one : Agree consequent consequent') (other : Agree alternative alternative') :
    Agree (Steps.choosing condition consequent alternative)
      (Steps.choosing condition' consequent' alternative') := by
  refine follows.bind decided fun value => ?_
  split
  · exact one
  · exact other

lemma inOrder {first rest : M Completion} {first' rest' : N Completion} (one : Agree first first')
    (other : Agree rest rest') : Agree (Steps.inOrder first rest) (Steps.inOrder first' rest') := by
  refine follows.bind one fun completion => ?_
  cases completion with
  | normal => exact other
  | returned value => exact follows.pure _

lemma repeating {condition : M Value} {condition' : N Value} {body again : M Completion}
    {body' again' : N Completion} (decided : Agree condition condition') (one : Agree body body')
    (other : Agree again again') :
    Agree (Steps.repeating condition body again) (Steps.repeating condition' body' again') := by
  refine follows.bind decided fun value => ?_
  split
  · exact follows.inOrder one other
  · exact follows.pure _

lemma ofStmt {evaluate : Expr → M Value} {evaluate' : Expr → N Value}
    {evaluateOr : Option Expr → M Value} {evaluateOr' : Option Expr → N Value}
    {execute : Stmt → M Completion} {execute' : Stmt → N Completion}
    {executeAll : List Stmt → M Completion} {executeAll' : List Stmt → N Completion}
    (evaluated : ∀ value, Agree (evaluate value) (evaluate' value))
    (evaluatedOr : ∀ value, Agree (evaluateOr value) (evaluateOr' value))
    (executed : ∀ stmt, Agree (execute stmt) (execute' stmt))
    (executedAll : ∀ stmts, Agree (executeAll stmts) (executeAll' stmts)) (stmt : Stmt) :
    Agree (steps.ofStmt evaluate evaluateOr execute executeAll stmt)
      (others.ofStmt evaluate' evaluateOr' execute' executeAll' stmt) := by
  cases stmt with
  | expression value => exact follows.bind (evaluated value) fun _ => follows.pure _
  | print value =>
      exact follows.bind (evaluated value) fun _ =>
        follows.bind (follows.print _) fun _ => follows.pure _
  | «variable» name initializer =>
      exact follows.bind (evaluatedOr initializer) fun _ =>
        follows.bind (follows.basic (.define _ _)) fun _ => follows.pure _
  | block body =>
      exact follows.bind (follows.basic .current) fun _ =>
        follows.bind (follows.basic (.openScope _)) fun scope =>
          follows.within scope (follows.around _ (executedAll body))
  | branch condition consequent alternative =>
      refine follows.choosing (evaluated condition) (follows.around _ (executed consequent)) ?_
      cases alternative with
      | none => exact follows.pure _
      | some alternative => exact follows.around _ (executed alternative)
  | loop condition body =>
      exact follows.repeating (evaluated condition) (follows.around _ (executed body)) (executed _)
  | function name parameters body =>
      exact follows.bind (follows.around _ (follows.basic (.declare _ _ _))) fun _ => follows.pure _
  | return_ keyword value =>
      exact follows.bind (evaluatedOr value) fun _ => follows.around _ (follows.pure _)

lemma ofStmts {execute : Stmt → M Completion} {execute' : Stmt → N Completion}
    {executeAll : List Stmt → M Completion} {executeAll' : List Stmt → N Completion}
    (executed : ∀ stmt, Agree (execute stmt) (execute' stmt))
    (executedAll : ∀ stmts, Agree (executeAll stmts) (executeAll' stmts)) (stmts : List Stmt) :
    Agree (steps.ofStmts execute executeAll stmts) (others.ofStmts execute' executeAll' stmts) := by
  cases stmts with
  | nil => exact follows.pure _
  | cons first rest => exact follows.inOrder (executed first) (follows.around _ (executedAll rest))

end

end Follows

/-! ### Runs -/

/-- With `n` steps allowed, the runs of two kinds are related. -/
structure Agrees (steps : Steps M) (others : Steps N) (Agree : {α : Type} → M α → N α → Prop)
    (n : Nat) : Prop where
  evaluate : ∀ value, Agree (steps.evaluate n value) (others.evaluate n value)
  evaluateAll : ∀ values, Agree (steps.evaluateAll n values) (others.evaluateAll n values)
  call : ∀ callee paren arguments,
    Agree (steps.call n callee paren arguments) (others.call n callee paren arguments)
  execute : ∀ stmt, Agree (steps.execute n stmt) (others.execute n stmt)
  evaluateOr : ∀ value, Agree (steps.evaluateOr n value) (others.evaluateOr n value)
  executeAll : ∀ stmts, Agree (steps.executeAll n stmts) (others.executeAll n stmts)

/-- With `n` steps allowed, the runs are related to those of the program. -/
structure Tells (steps : Steps M) (Agree : {α : Type} → M α → Action α → Prop) (n : Nat) : Prop where
  evaluate : ∀ value, Agree (steps.evaluate n value) (Action.evaluate n value)
  evaluateAll : ∀ values, Agree (steps.evaluateAll n values) (Action.evaluateAll n values)
  call : ∀ callee paren arguments,
    Agree (steps.call n callee paren arguments) (Action.call n callee paren arguments)
  execute : ∀ stmt, Agree (steps.execute n stmt) (Action.execute n stmt)
  evaluateOr : ∀ value, Agree (steps.evaluateOr n value) (Action.evaluateOr n value)
  executeAll : ∀ stmts, Agree (steps.executeAll n stmts) (Action.executeAll n stmts)

/-- **Every run of the one kind is related to the run of the other kind.** -/
theorem Follows.run {Agree : {α : Type} → M α → N α → Prop} (follows : Follows steps others Agree)
    (n : Nat) : Agrees steps others Agree n := by
  have spent : ∀ {α : Type}, Agree (steps.basic (Action.exhausted : Action α))
      (others.basic Action.exhausted) := follows.basic .exhausted
  induction n with
  | zero => exact ⟨fun _ => spent, fun _ => spent, fun _ _ _ => spent, fun _ => spent,
      fun _ => spent, fun _ => spent⟩
  | succ n ih =>
      constructor
      case evaluate =>
        exact fun value => follows.around _ (follows.ofExpr ih.evaluate ih.evaluateAll ih.call value)
      case evaluateAll => exact follows.ofExprs ih.evaluate ih.evaluateAll
      case call => exact follows.ofCall fun _ closure => follows.around _ (ih.executeAll closure.body)
      case execute =>
        exact fun stmt => follows.around _
          (follows.ofStmt ih.evaluate ih.evaluateOr ih.execute ih.executeAll stmt)
      case evaluateOr => exact follows.ofOption ih.evaluate
      case executeAll => exact follows.ofStmts ih.execute ih.executeAll

/-- **Every run is related to the run of the program.** -/
theorem Follows.program {Agree : {α : Type} → M α → Action α → Prop}
    (follows : Follows steps own Agree) (n : Nat) : Tells steps Agree n := by
  have run := follows.run n
  have same := own_run n
  exact ⟨same.evaluate ▸ run.evaluate, same.evaluateAll ▸ run.evaluateAll, same.call ▸ run.call,
    same.execute ▸ run.execute, same.evaluateOr ▸ run.evaluateOr, same.executeAll ▸ run.executeAll⟩

end Steps

end LoxLang
