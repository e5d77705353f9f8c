import LoxLang.Proofs.Evaluation.Revised
import LoxLang.Proofs.Evaluation.SideBySide
import LoxLang.Proofs.Grammar.WellFormed
import LoxLang.Proofs.Store.Growth
import Mathlib

/-!
# Operators are known at run time

The evaluation of a well-formed tree asks only for operators that there are.  It can also call any
function that was declared before, so the bodies of all functions that are kept anywhere have to be well
formed, too, and every step has to keep it that way.

* `Value.WellFormed`, `Machine.WellFormed` — the bodies of all functions are well formed, and the host
  has none of its own.
* `Fault.Known` — a fault that tells of no unknown operator.
* `Action.Upholds` — a step that keeps the functions well formed and ends with such a fault at most;
  one lemma for each way to put steps together, and for each step that touches the machine.
* **`Action.upholds`** — so do the evaluation and the execution of all well-formed trees.
-/

namespace LoxLang

/-! ## The invariant -/

/-- A function whose body is well formed, or a value that is no function of a program. -/
def Value.WellFormed : Value → Prop
  | .function _ closure => Stmt.WellFormedAll closure.body
  | _ => True

/-- What a statement returns is well formed. -/
def Completion.WellFormed : Completion → Prop
  | .normal => True
  | .returned value => value.WellFormed

/-- **All functions that the scopes hold are well formed**, and the host has no functions but the
clock. -/
structure Machine.WellFormed (machine : Machine) : Prop where
  unhosted : machine.Unhosted
  values : ∀ {i : Nat} {name : String} {value : Value},
    machine.store.local? i name = some value → value.WellFormed

/-- An error that tells neither of an unknown operator nor of what the host says. -/
def RuntimeError.Known : RuntimeError → Prop
  | .unknownUnary => False
  | .unknownBinary => False
  | .host _ => False
  | _ => True

lemma RuntimeError.known_notCallable : RuntimeError.notCallable.Known := trivial

lemma RuntimeError.known_wrongCount (expected given : Nat) :
    (RuntimeError.wrongCount expected given).Known := trivial

/-- A fault that tells of no unknown operator. -/
def Fault.Known : Fault → Prop
  | .runtime error _ => error.Known
  | .output _ => True

lemma head_append {front : String} {c : Char} (begins : front.toList.head? = some c)
    (rest : String) : (front ++ rest).toList.head? = some c := by
  rw [String.toList_append, List.head?_append, begins]
  rfl

/-- No other error has the wording of one about unknown operators. -/
lemma RuntimeError.Known.message_ne {error : RuntimeError} (known : error.Known) :
    error.message ≠ RuntimeError.unknownUnary.message ∧
      error.message ≠ RuntimeError.unknownBinary.message := by
  -- what is not a fixed text begins with another letter
  have other : ∀ {c}, error.message.toList.head? = some c → c ≠ 'I' →
      error.message ≠ RuntimeError.unknownUnary.message ∧
        error.message ≠ RuntimeError.unknownBinary.message := by
    intro c begins different
    constructor <;> intro same <;> rw [same] at begins <;>
      exact different (Option.some.inj begins).symm
  cases error with
  | unknownUnary => exact known.elim
  | unknownBinary => exact known.elim
  | host text => exact known.elim
  | wrongCount expected given =>
      have begins : "Expected ".toList.head? = some 'E' := rfl
      exact other (head_append (head_append (head_append (head_append begins _) _) _) _) (by decide)
  | undefined name =>
      have begins : "Undefined variable '".toList.head? = some 'U' := rfl
      exact other (head_append (head_append begins _) _) (by decide)
  | _ => constructor <;> decide

/-! ### Operators -/

/-- What a step may yield: a well-formed value, or an error that tells of no unknown operator. -/
def WellFormedResult : Except RuntimeError Value → Prop
  | .ok value => value.WellFormed
  | .error error => error.Known

lemma wellFormed_prefixed {operator : Kind} (listed : operator ∈ Kind.unaryOperators)
    (operand : Value) : WellFormedResult (operand.prefixed operator) := by
  simp only [Kind.unaryOperators, List.mem_cons, List.not_mem_nil, or_false] at listed
  rcases listed with rfl | rfl
  · exact trivial
  · cases operand <;> exact trivial

lemma wellFormed_combined {operator : Kind} (listed : operator ∈ Kind.binaryOperators)
    (left right : Value) : WellFormedResult (left.combined operator right) := by
  simp only [Kind.binaryOperators, List.mem_cons, List.not_mem_nil, or_false] at listed
  rcases listed with rfl | rfl | rfl | rfl | rfl | rfl | rfl | rfl | rfl | rfl <;>
    cases left <;> cases right <;> exact trivial

namespace Machine.WellFormed

variable {machine : Machine}

lemma start (sink : Sink) (clock : Nat → Float) : (Machine.start sink clock).WellFormed := by
  refine ⟨Machine.unhosted_start sink clock, fun held => ?_⟩
  rcases Store.local?_define_cases held with rfl | held
  · trivial
  · rw [Store.local?_root_empty] at held
    cases held

/-- Only the scopes and the host matter. -/
lemma of_eq (sound : machine.WellFormed) {after : Machine} (store : after.store = machine.store)
    (natives : after.natives = machine.natives) : after.WellFormed := by
  refine ⟨?_, ?_⟩
  · rw [Machine.Unhosted, natives]
    exact sound.unhosted
  · rw [store]
    exact sound.values

lemma define (sound : machine.WellFormed) (scope : Nat) (name : String) {value : Value}
    (given : value.WellFormed) :
    ({ machine with store := machine.store.define scope name value } : Machine).WellFormed := by
  refine ⟨sound.unhosted, fun held => ?_⟩
  rcases Store.local?_define_cases held with rfl | held
  · exact given
  · exact sound.values held

end Machine.WellFormed

/-! ## Steps -/

/-- **What well-formed trees come to**: the functions are still well formed, the value has a property,
and a fault tells of no unknown operator. -/
def Outcome.Upheld {α : Type} (Q : α → Prop) : Outcome α → Prop
  | .done value after => after.WellFormed ∧ Q value
  | .failed fault after => after.WellFormed ∧ fault.Known
  | .exhausted => True

namespace Action

variable {α β : Type}

/-- A step that comes to such an outcome wherever the functions are well formed. -/
def Upholds (Q : α → Prop) (step : Action α) : Prop :=
  ∀ machine : Machine, machine.WellFormed → (step machine).Upheld Q

namespace Upholds

variable {P : α → Prop} {Q : β → Prop}

/-! ### Putting steps together -/

lemma pure {value : α} (given : P value) : Upholds P (Pure.pure value) :=
  fun _ sound => ⟨sound, given⟩

lemma exhausted : Upholds P Action.exhausted := fun _ _ => trivial

lemma bind {step : Action α} {next : α → Action β} (first : Upholds P step)
    (second : ∀ value, P value → Upholds Q (next value)) : Upholds Q (step >>= next) := by
  intro machine sound
  have one := first machine sound
  show (Action.bind step next machine).Upheld Q
  unfold Action.bind
  cases found : step machine with
  | done value after =>
      rw [found] at one
      exact second value one.2 after one.1
  | failed fault after =>
      rw [found] at one
      exact one
  | exhausted => trivial

lemma within {step : Action α} (inner : Upholds P step) (scope : Nat) :
    Upholds P (Action.within scope step) := by
  intro machine sound
  have inside := inner { machine with current := scope } (sound.of_eq rfl rfl)
  simp only [Action.within]
  cases found : step { machine with current := scope } with
  | done value after =>
      rw [found] at inside
      exact ⟨inside.1.of_eq rfl rfl, inside.2⟩
  | failed fault after =>
      rw [found] at inside
      exact ⟨inside.1.of_eq rfl rfl, inside.2⟩
  | exhausted => trivial

/-! ### Steps that touch the machine -/

lemma fail {error : RuntimeError} (known : error.Known) (place : Token) :
    Upholds P (Action.fail error place) := fun _ sound => ⟨sound, known⟩

lemma ofExcept (place : Token) {result : Except RuntimeError Value}
    (given : WellFormedResult result) : Upholds Value.WellFormed (Action.ofExcept place result) := by
  cases result with
  | ok value => exact pure given
  | error error => exact fail given place

lemma look (name : Token) (hops : Option Nat) :
    Upholds Value.WellFormed (Action.look name hops) := by
  intro machine sound
  simp only [Action.look]
  split
  · next value found =>
      refine ⟨sound, ?_⟩
      cases hops with
      | none =>
          obtain ⟨scope, held⟩ := Store.exists_local?_of_get? found
          exact sound.values held
      | some distance =>
          obtain ⟨scope, _, held⟩ := Option.bind_eq_some_iff.mp found
          exact sound.values held
  · exact ⟨sound, trivial⟩

lemma assign (name : Token) (hops : Option Nat) {value : Value} (given : value.WellFormed) :
    Upholds (fun _ => True) (Action.assign name hops value) := by
  intro machine sound
  simp only [Action.assign]
  split
  · exact ⟨sound.define _ _ given, trivial⟩
  · exact ⟨sound, trivial⟩

lemma define (name : Token) {value : Value} (given : value.WellFormed) :
    Upholds (fun _ => True) (Action.define name value) :=
  fun _ sound => ⟨sound.define _ _ given, trivial⟩

lemma declare (name : Token) (parameters : List Token) {body : List Stmt}
    (given : Stmt.WellFormedAll body) :
    Upholds (fun _ => True) (Action.declare name parameters body) := by
  intro machine sound
  have function : (Value.function machine.events
    ⟨name, parameters, body, machine.current⟩).WellFormed := given
  exact ⟨(sound.define _ _ function).of_eq rfl rfl, trivial⟩

lemma openScope (outer : Nat) : Upholds (fun _ => True) (Action.openScope outer) := by
  refine fun machine sound => ⟨⟨sound.unhosted, fun {i name value} held => ?_⟩, trivial⟩
  have same := Store.local?_child machine.store outer i name
  exact sound.values (same ▸ held)

lemma current : Upholds (fun _ => True) Action.current := fun _ sound => ⟨sound, trivial⟩

lemma bindAll (scope : Nat) (parameters : List Token) {arguments : List Value}
    (given : ∀ argument ∈ arguments, argument.WellFormed) :
    Upholds (fun _ => True) (Action.bindAll scope parameters arguments) := by
  intro machine sound
  refine ⟨?_, trivial⟩
  have bound : ∀ pair ∈ parameters.zip arguments, pair.2.WellFormed :=
    fun pair mem => given pair.2 (List.of_mem_zip mem).2
  generalize parameters.zip arguments = pairs at bound
  induction pairs generalizing machine with
  | nil => exact sound
  | cons pair others ih =>
      obtain ⟨first, rest⟩ := List.forall_mem_cons.mp bound
      exact ih _ (sound.define scope pair.1.lexeme first) rest

lemma print (text : String) : Upholds (fun _ => True) (Action.print text) := by
  intro machine sound
  simp only [Action.print]
  split
  · exact ⟨sound.of_eq rfl rfl, trivial⟩
  · exact ⟨sound.of_eq rfl rfl, trivial⟩

/-- The host has nothing but the clock. -/
lemma callNative (index : Nat) (paren : Token) (arguments : List Value) :
    Upholds Value.WellFormed (Action.callNative index paren arguments) := by
  intro machine sound
  simp only [Action.callNative]
  split
  · exact ⟨sound.of_eq rfl rfl, trivial⟩
  · next found => cases sound.unhosted _ (List.mem_of_getElem? found)
  · exact ⟨sound, trivial⟩

end Upholds

/-! ## Runs -/

/-- With `n` steps allowed, well-formed trees and functions uphold the invariant. -/
structure UpheldRun (n : Nat) : Prop where
  evaluate : ∀ value : Expr, value.WellFormed → Upholds Value.WellFormed (evaluate n value)
  evaluateAll : ∀ values, Expr.WellFormedAll values →
    Upholds (fun given => ∀ value ∈ given, value.WellFormed) (evaluateAll n values)
  call : ∀ callee paren arguments, callee.WellFormed →
    (∀ argument ∈ arguments, argument.WellFormed) →
    Upholds Value.WellFormed (call n callee paren arguments)
  execute : ∀ stmt : Stmt, stmt.WellFormed → Upholds Completion.WellFormed (execute n stmt)
  evaluateOr : ∀ value, Expr.WellFormed? value → Upholds Value.WellFormed (evaluateOr n value)
  executeAll : ∀ stmts, Stmt.WellFormedAll stmts →
    Upholds Completion.WellFormed (executeAll n stmts)

namespace UpheldRun

variable {n : Nat}

lemma evaluate_succ (ih : UpheldRun n) (value : Expr) (given : value.WellFormed) :
    Upholds Value.WellFormed (Action.evaluate (n + 1) value) := by
  cases value with
  | literal constant => exact .pure (by cases constant <;> exact trivial)
  | group inner => exact ih.evaluate inner given
  | unary operator operand =>
      exact (ih.evaluate operand given.2).bind fun value _ =>
        .ofExcept _ (wellFormed_prefixed given.1 value)
  | binary left operator right =>
      exact (ih.evaluate left given.2.1).bind fun one _ => (ih.evaluate right given.2.2).bind
        fun two _ => .ofExcept _ (wellFormed_combined given.1 one two)
  | logical left operator right =>
      refine (ih.evaluate left given.2.1).bind fun value found => ?_
      split
      · exact .pure found
      · exact ih.evaluate right given.2.2
  | «variable» name hops => exact .look name hops
  | assign name value hops =>
      exact (ih.evaluate value given.2).bind fun value found =>
        (Upholds.assign _ _ found).bind fun _ _ => .pure found
  | call callee paren arguments =>
      exact (ih.evaluate callee given.2.1).bind fun function found =>
        (ih.evaluateAll arguments given.2.2).bind fun values all => ih.call _ _ _ found all

lemma evaluateAll_succ (ih : UpheldRun n) (values : List Expr) (given : Expr.WellFormedAll values) :
    Upholds (fun given => ∀ value ∈ given, value.WellFormed) (Action.evaluateAll (n + 1) values) := by
  cases values with
  | nil => exact .pure (by simp)
  | cons first others =>
      exact (ih.evaluate first given.1).bind fun value found =>
        (ih.evaluateAll others given.2).bind fun more all =>
          .pure (List.forall_mem_cons.mpr ⟨found, all⟩)

lemma call_succ (ih : UpheldRun n) (callee : Value) (paren : Token) (arguments : List Value)
    (given : callee.WellFormed) (all : ∀ argument ∈ arguments, argument.WellFormed) :
    Upholds Value.WellFormed (Action.call (n + 1) callee paren arguments) := by
  cases callee with
  | function event closure =>
      simp only [Action.call]
      split
      · refine (Upholds.openScope _).bind fun scope _ => (Upholds.bindAll _ _ all).bind fun _ _ => ?_
        refine ((ih.executeAll closure.body given).within scope).bind fun completion found => ?_
        cases completion with
        | normal => exact .pure trivial
        | returned value => exact .pure found
      · exact .fail (RuntimeError.known_wrongCount _ _) _
  | native index arity =>
      simp only [Action.call]
      split
      · exact .callNative _ _ _
      · exact .fail (RuntimeError.known_wrongCount _ _) _
  | nil => exact .fail RuntimeError.known_notCallable _
  | bool value => exact .fail RuntimeError.known_notCallable _
  | number value => exact .fail RuntimeError.known_notCallable _
  | text value => exact .fail RuntimeError.known_notCallable _

lemma execute_succ (ih : UpheldRun n) (stmt : Stmt) (given : stmt.WellFormed) :
    Upholds Completion.WellFormed (Action.execute (n + 1) stmt) := by
  cases stmt with
  | expression value => exact (ih.evaluate value given).bind fun _ _ => .pure trivial
  | print value =>
      exact (ih.evaluate value given).bind fun _ _ => (Upholds.print _).bind fun _ _ => .pure trivial
  | «variable» name initializer =>
      exact (ih.evaluateOr initializer given.2).bind fun value found =>
        (Upholds.define _ found).bind fun _ _ => .pure trivial
  | block body =>
      exact Upholds.current.bind fun _ _ => (Upholds.openScope _).bind fun scope _ =>
        (ih.executeAll body given).within scope
  | branch condition consequent alternative =>
      refine (ih.evaluate condition given.1).bind fun value _ => ?_
      split
      · exact ih.execute consequent given.2.1.2
      · cases alternative with
        | none => exact .pure trivial
        | some alternative => exact ih.execute alternative given.2.2.2
  | loop condition body =>
      refine (ih.evaluate condition given.1).bind fun value _ => ?_
      split
      · refine (ih.execute body given.2.2).bind fun completion found => ?_
        cases completion with
        | normal => exact ih.execute (.loop condition body) given
        | returned value => exact .pure found
      · exact .pure trivial
  | function name parameters body =>
      exact (Upholds.declare _ _ given.2.2).bind fun _ _ => .pure trivial
  | return_ keyword value => exact (ih.evaluateOr value given.2).bind fun _ found => .pure found

lemma evaluateOr_succ (ih : UpheldRun n) (value : Option Expr) (given : Expr.WellFormed? value) :
    Upholds Value.WellFormed (Action.evaluateOr (n + 1) value) := by
  cases value with
  | none => exact .pure trivial
  | some value => exact ih.evaluate value (given value rfl)

lemma executeAll_succ (ih : UpheldRun n) (stmts : List Stmt) (given : Stmt.WellFormedAll stmts) :
    Upholds Completion.WellFormed (Action.executeAll (n + 1) stmts) := by
  cases stmts with
  | nil => exact .pure trivial
  | cons first others =>
      refine (ih.execute first given.1).bind fun completion found => ?_
      cases completion with
      | normal => exact ih.executeAll others given.2
      | returned value => exact .pure found

end UpheldRun

/-- **Well-formed trees and functions uphold the invariant**, with every allowance. -/
theorem upholds (n : Nat) : UpheldRun n := by
  induction n with
  | zero => exact ⟨fun _ _ => .exhausted, fun _ _ => .exhausted, fun _ _ _ _ _ => .exhausted,
      fun _ _ => .exhausted, fun _ _ => .exhausted, fun _ _ => .exhausted⟩
  | succ n ih => exact ⟨ih.evaluate_succ, ih.evaluateAll_succ, ih.call_succ, ih.execute_succ,
      ih.evaluateOr_succ, ih.executeAll_succ⟩

end Action

end LoxLang
