import LoxLang.Evaluation.Operator
import LoxLang.Output.Sink
import LoxLang.Store

/-!
# The state of a running program

* `Machine` — the scopes and the current one, the functions of the host, the clock and the sink.
* `Action` — a step of a program: it changes the machine and yields a value, stops with a fault, or
  uses up its allowance.
* **`Action.within`** — the only way to change the current scope, which is the same again afterwards.
-/

namespace LoxLang

/-- A function of the host. -/
inductive Native where
  /-- Reads the clock. -/
  | clock
  | host (arity : Nat) (apply : List Value → Except String Value)

/-- How many arguments a function of the host takes. -/
def Native.arity : Native → Nat
  | clock => 0
  | host arity _ => arity

/-- The state of a running program. -/
structure Machine where
  store : Store Value
  /-- The number of the scope in which names are defined. -/
  current : Nat
  /-- How many function declarations have been executed. -/
  events : Nat
  /-- The functions of the host in the order of their registration. -/
  natives : List Native
  /-- What the clock shows when it is read for the first time, the second time, and so on. -/
  clock : Nat → Float
  /-- How often the clock has been read. -/
  readings : Nat
  sink : Sink

/-- The number of the scope of global names. -/
def Machine.globals : Nat := 0

/-- Why a program stops. -/
inductive Fault where
  | runtime (error : RuntimeError) (line : Nat)
  | output (error : SinkError)
  deriving DecidableEq, Repr

/-- How a step of a program ends. -/
inductive Outcome (α : Type) where
  | done (value : α) (machine : Machine)
  | failed (fault : Fault) (machine : Machine)
  /-- The allowance was used up. -/
  | exhausted

/-- A step of a program. -/
def Action (α : Type) := Machine → Outcome α

namespace Action

variable {α β : Type}

/-- Yields a value and changes nothing. -/
@[always_inline, inline]
protected def pure (value : α) : Action α := fun machine => .done value machine

/-- One step after another. -/
@[always_inline, inline]
protected def bind (first : Action α) (second : α → Action β) : Action β := fun machine =>
  match first machine with
  | .done value machine => second value machine
  | .failed fault machine => .failed fault machine
  | .exhausted => .exhausted

instance : Monad Action where
  pure := Action.pure
  bind := Action.bind

/-- Stops because the allowance is used up. -/
def exhausted : Action α := fun _ => .exhausted

/-- Stops with a runtime error on the line of a token. -/
def fail (error : RuntimeError) (place : Token) : Action α := fun machine =>
  .failed (.runtime error place.line) machine

/-- Yields a value, or stops with a runtime error on the line of a token. -/
def ofExcept (place : Token) (result : Except RuntimeError α) : Action α :=
  match result with
  | .ok value => pure value
  | .error error => fail error place

/-! ## Names -/

/-- The value of a name: in the scope `hops` links out, or among the globals. -/
def look (name : Token) (hops : Option Nat) : Action Value := fun machine =>
  let found := match hops with
    | some distance => machine.store.getAt? machine.current distance name.lexeme
    | none => machine.store.get? Machine.globals name.lexeme
  match found with
  | some value => .done value machine
  | none => .failed (.runtime (.undefined name.lexeme) name.line) machine

/-- Gives a name a new value in the scope `hops` links out, or among the globals.  The scope is found
first, so that the store is changed only where nothing else can still need the old one. -/
def assign (name : Token) (hops : Option Nat) (value : Value) : Action Unit := fun machine =>
  let target := match hops with
    | some distance => machine.store.ancestor? machine.current distance
    | none => machine.store.holder? Machine.globals name.lexeme
  match target with
  | some scope =>
    .done () { machine with store := machine.store.define scope name.lexeme value }
  | none => .failed (.runtime (.undefined name.lexeme) name.line) machine

/-- Binds a name in the current scope. -/
def define (name : Token) (value : Value) : Action Unit := fun machine =>
  .done () { machine with store := machine.store.define machine.current name.lexeme value }

/-- Binds a name in the current scope to a new function. -/
def declare (name : Token) (parameters : List Token) (body : List Stmt) : Action Unit :=
  fun machine =>
    let function := .function machine.events ⟨name, parameters, body, machine.current⟩
    .done () { machine with
      store := machine.store.define machine.current name.lexeme function
      events := machine.events + 1 }

/-! ## Scopes -/

/-- Makes a scope that `outer` encloses. -/
def openScope (outer : Nat) : Action Nat := fun machine =>
  let (scope, store) := machine.store.child outer
  .done scope { machine with store }

/-- The current scope. -/
def current : Action Nat := fun machine => .done machine.current machine

/-- Does a step in another scope and returns to the current one, however the step ends. -/
def within (scope : Nat) (step : Action α) : Action α := fun machine =>
  let outside := machine.current
  match step { machine with current := scope } with
  | .done value machine => .done value { machine with current := outside }
  | .failed fault machine => .failed fault { machine with current := outside }
  | .exhausted => .exhausted

/-- Binds parameters to arguments in a scope, in their order. -/
def bindAll (scope : Nat) (parameters : List Token) (arguments : List Value) : Action Unit :=
  fun machine =>
    let bound := (parameters.zip arguments).foldl
      (fun store (parameter, argument) => store.define scope parameter.lexeme argument)
      machine.store
    .done () { machine with store := bound }

/-! ## The world outside -/

/-- Prints a text and a line end. -/
def print (text : String) : Action Unit := fun machine =>
  match machine.sink.write (text ++ "\n").toUTF8 with
  | (none, sink) => .done () { machine with sink }
  | (some error, sink) => .failed (.output error) { machine with sink }

/-- Reads the clock. -/
def readClock : Action Value := fun machine =>
  .done (.number (machine.clock machine.readings))
    { machine with readings := machine.readings + 1 }

/-- Calls a function of the host, with as many arguments as it takes. -/
def callNative (index : Nat) (paren : Token) (arguments : List Value) : Action Value :=
  fun machine =>
    match machine.natives[index]? with
    | some .clock => readClock machine
    | some (.host _ apply) =>
      match apply arguments with
      | .ok value => .done value machine
      | .error text => .failed (.runtime (.host text) paren.line) machine
    | none => .failed (.runtime .notCallable paren.line) machine

end Action

namespace Machine

/-- Makes a function of the host known under a global name. -/
def register (machine : Machine) (name : String) (native : Native) : Machine :=
  { machine with
    store := machine.store.define globals name (.native machine.natives.length native.arity)
    natives := machine.natives ++ [native] }

/-- A machine at the start: one scope, and in it the clock. -/
def start (sink : Sink) (clock : Nat → Float) : Machine :=
  let bare : Machine := ⟨Store.empty.root.2, globals, 0, [], clock, 0, sink⟩
  bare.register "clock" .clock

end Machine

end LoxLang
