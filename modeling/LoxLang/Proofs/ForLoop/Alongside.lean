import Mathlib
import LoxLang.Proofs.ForLoop.Step

/-!
# Whole runs side by side

The run that reads `for` loops directly and the run of the blocks in their place begin with the same
variables.  With the same allowance they go on side by side to the end: a round of the one is a pass
through the block of the other, and the scope of that block stays empty.

* `Action.executeAll_pair` — a block of two statements, as an initializer and its loop or a body and its
  increment make one.
* `World.Completes` — two statements end alike.
* `Accompanied` — with so many steps allowed, each function of a direct run has its companion.
* **`accompanied`** — it has, with every allowance.
-/

namespace LoxLang

namespace Action

/-! ## Blocks of two statements -/

lemma execute_block (n : Nat) (body : List Stmt) : execute n (.block body) = (do
    let scope ← openScope (← current)
    within scope (executeAll (n - 1) body)) := by
  cases n with
  | zero => rfl
  | succ n => rfl

lemma execute_expression (n : Nat) (value : Expr) : execute n (.expression value) = (do
    let _ ← evaluate (n - 1) value
    return .normal) := by
  cases n with
  | zero => rfl
  | succ n => rfl

lemma executeAll_single (n : Nat) (stmt : Stmt) : executeAll (n + 1) [stmt] = execute n stmt := by
  funext machine
  show Action.bind (execute n stmt) _ machine = _
  unfold Action.bind
  cases found : execute n stmt machine with
  | done completion after =>
      cases n with
      | zero => cases found
      | succ n => cases completion <;> rfl
  | failed fault after => rfl
  | exhausted => rfl

/-- The second statement is reached if the first one does not return. -/
lemma executeAll_pair (n : Nat) (first second : Stmt) : executeAll n [first, second] = (do
    match ← execute (n - 1) first with
    | .normal => execute (n - 2) second
    | .returned value => return .returned value) := by
  rcases n with _ | _ | n
  · rfl
  · rfl
  · refine bind_congr fun completion => ?_
    cases completion with
    | normal => exact executeAll_single n second
    | returned value => rfl

end Action

namespace Looped

/-- One round of a `for` loop as one statement. -/
def Statement.laidRound (layout : Layout) (body : Statement) : Option Expr → Stmt
  | some step => .block [body.laid layout.deepen, .expression (step.revised layout.deepen.revision)]
  | none => body.laid layout

lemma Statement.laid_forLoop (layout : Layout) (condition increment : Option Expr)
    (body : Statement) : (Statement.forLoop none condition increment body).laid layout =
      .loop ((condition.map (Expr.revised layout.revision)).getD (.literal (.bool true)))
        (body.laidRound layout increment) := by
  cases increment <;> rfl

/-- Two statements end alike: both go on, or both return the same. -/
inductive World.Completes (w : World) : Completion → Completion → Prop where
  | normal : w.Completes .normal .normal
  | returned {value value' : Value} : w.Mirrors value value' →
      w.Completes (.returned value) (.returned value')

/-- With `n` steps allowed, what is done directly is done by the other run with the code that is laid
out in the layout of the place. -/
structure Accompanied (n : Nat) : Prop where
  evaluate : ∀ (w : World) (layout : Layout) (value : Expr), Follows w layout World.Mirrors
    (evaluate n value) (Action.evaluate n (value.revised layout.revision))
  evaluateAll : ∀ (w : World) (layout : Layout) (values : List Expr),
    Follows w layout (fun later => List.Forall₂ later.Mirrors)
      (evaluateAll n values) (Action.evaluateAll n (Expr.revisedAll layout.revision values))
  call : ∀ (w : World) (layout : Layout) (paren : Token) (callee callee' : Value)
    (arguments arguments' : List Value), w.Mirrors callee callee' →
    List.Forall₂ w.Mirrors arguments arguments' →
    Follows w layout World.Mirrors (call n callee paren arguments)
      (Action.call n callee' paren arguments')
  execute : ∀ (w : World) (layout : Layout) (stmt : Statement), Follows w layout World.Completes
    (execute n stmt) (Action.execute n (stmt.laid layout))
  prepare : ∀ (w : World) (layout : Layout) (first : Initializer),
    Follows w (0 :: layout) (fun _ _ completion => completion = .normal)
      (prepare n first) (Action.execute n (first.laid (0 :: layout)))
  evaluateOr : ∀ (w : World) (layout : Layout) (value : Option Expr),
    Follows w layout World.Mirrors (evaluateOr n value)
      (Action.evaluateOr n (value.map (Expr.revised layout.revision)))
  perform : ∀ (w : World) (layout : Layout) (declaration : Declaration),
    Follows w (0 :: layout) World.Completes (perform n declaration)
      (Action.execute n (declaration.laid (0 :: layout)))
  performAll : ∀ (w : World) (layout : Layout) (declarations : List Declaration),
    Follows w (0 :: layout) World.Completes (performAll n declarations)
      (Action.executeAll n (Declaration.laidAll (0 :: layout) declarations))

/-- The direct run fetches the body of a function from beside the machine. -/
lemma Follows.bodyOf {α β : Type} {w : World} {layout : Layout} {R : World → α → β → Prop}
    {event : Nat} {body : List Declaration} {next : List Declaration → Direct α} {step' : Action β}
    (held : w.bodies[event]? = some body) (follows : Follows w layout R (next body) step') :
    Follows w layout R (Direct.bodyOf event >>= next) step' := by
  intro here grows machine machine' mirror stands
  have found := getElem?_left grows.bodies held
  show Ends here R machine machine' (Direct.bind (Direct.bodyOf event) next here.bodies machine)
    (step' machine')
  simp only [Direct.bind, Direct.bodyOf, found, Option.getD_some]
  exact follows here grows machine machine' mirror stands

/-- The other run says how it ends, after a step of which nothing is told. -/
lemma Follows.completed {α : Type} {w : World} {layout : Layout} {step : Direct Unit}
    {step' : Action Unit} (follows : Follows w layout (fun _ _ _ => True) step step') (given : α) :
    Follows w layout (fun _ _ value => value = given) step (step' >>= fun _ => Pure.pure given) := by
  intro here grows machine machine' mirror stands
  have ends := follows here grows machine machine' mirror stands
  show Ends here _ machine machine' (step here.bodies machine)
    (Action.bind step' (fun _ => Pure.pure given) machine')
  unfold Action.bind
  generalize step here.bodies machine = ending at ends
  generalize step' machine' = outcome at ends
  cases ends with
  | done more mirrored same same' _ => exact .done more mirrored same same' rfl
  | failed more mirrored same same' => exact .failed more mirrored same same'
  | exhausted => exact .exhausted

lemma World.Mirrors.forall_mono {w later : World} {values values' : List Value}
    (same : List.Forall₂ w.Mirrors values values') (grows : w.Grows later) :
    List.Forall₂ later.Mirrors values values' :=
  same.imp fun _ _ one => one.mono grows

namespace Accompanied

variable {n : Nat} {w : World} {layout : Layout}

lemma evaluate_succ (ih : Accompanied n) (w : World) (layout : Layout) (value : Expr) :
    Follows w layout World.Mirrors (Looped.evaluate (n + 1) value)
      (Action.evaluate (n + 1) (value.revised layout.revision)) := by
  cases value with
  | literal constant =>
      rw [Looped.evaluate]
      exact .pure fun later _ => World.mirrors_constant constant
  | group inner =>
      rw [Looped.evaluate]
      exact ih.evaluate w layout inner
  | unary operator operand =>
      rw [Looped.evaluate]
      refine (ih.evaluate w layout operand).bind fun later _ value value' same => ?_
      have alike := same.alike.prefixed_eq operator.kind
      show Follows later layout World.Mirrors (Direct.lift (Action.ofExcept operator _))
        (Action.ofExcept operator (value'.prefixed operator.kind))
      rw [alike]
      exact .ofResult operator (operatorResult_prefixed _ _)
  | binary left operator right =>
      rw [Looped.evaluate]
      refine (ih.evaluate w layout left).bind fun middle _ value value' same => ?_
      refine (ih.evaluate middle layout right).bind fun later grows other other' same' => ?_
      have alike := (same.mono grows).alike.combined_eq same'.alike operator.kind
      show Follows later layout World.Mirrors (Direct.lift (Action.ofExcept operator _))
        (Action.ofExcept operator (value'.combined operator.kind other'))
      rw [alike]
      exact .ofResult operator (operatorResult_combined _ _ _)
  | logical left operator right =>
      rw [Looped.evaluate]
      refine (ih.evaluate w layout left).bind fun later _ value value' same => ?_
      rw [← same.alike.isTruthy_eq, Token.kind_revised]
      split
      · exact .pure fun _ grows => same.mono grows
      · exact ih.evaluate later layout right
  | «variable» name hops =>
      rw [Looped.evaluate]
      exact .look name hops
  | assign name value hops =>
      rw [Looped.evaluate]
      refine (ih.evaluate w layout value).bind fun later _ value value' same => ?_
      exact (Follows.assign name hops same).bind fun _ grows _ _ _ =>
        .pure fun _ more => same.mono (grows.trans more)
  | call callee paren arguments =>
      rw [Looped.evaluate]
      refine (ih.evaluate w layout callee).bind fun middle _ value value' same => ?_
      refine (ih.evaluateAll middle layout arguments).bind fun later grows values values' same' => ?_
      exact ih.call later layout paren value value' values values' (same.mono grows) same'

lemma evaluateAll_succ (ih : Accompanied n) (w : World) (layout : Layout) (values : List Expr) :
    Follows w layout (fun later => List.Forall₂ later.Mirrors)
      (Looped.evaluateAll (n + 1) values)
      (Action.evaluateAll (n + 1) (Expr.revisedAll layout.revision values)) := by
  cases values with
  | nil =>
      rw [Looped.evaluateAll]
      exact .pure fun _ _ => .nil
  | cons first others =>
      rw [Looped.evaluateAll]
      refine (ih.evaluate w layout first).bind fun middle _ value value' same => ?_
      refine (ih.evaluateAll middle layout others).bind fun later grows values values' same' => ?_
      exact .pure fun last more =>
        .cons (same.mono (grows.trans more)) (World.Mirrors.forall_mono same' more)

lemma call_succ (ih : Accompanied n) (w : World) (layout : Layout) (paren : Token)
    (callee callee' : Value) (arguments arguments' : List Value) (same : w.Mirrors callee callee')
    (alike : List.Forall₂ w.Mirrors arguments arguments') :
    Follows w layout World.Mirrors (Looped.call (n + 1) callee paren arguments)
      (Action.call (n + 1) callee' paren arguments') := by
  have length := alike.length_eq
  cases same with
  | @function event closure closure' inside body _ parameters stands held laid =>
      simp only [Looped.call, Steps.ofCall, Action.call, parameters, laid, length]
      split
      · refine (Follows.openScope stands).bind fun middle grows scope scope' inner => ?_
        refine (Follows.bindAll inner closure.parameters
          (World.Mirrors.forall_mono alike grows)).bind fun later more _ _ _ => ?_
        have ran := Follows.bodyOf (getElem?_left (grows.trans more).bodies held)
          (ih.performAll later inside body)
        refine (ran.within (inner.mono more)).bind fun last _ completion completion' ended => ?_
        cases ended with
        | normal => exact .pure fun _ _ => .nil
        | returned same => exact .pure fun _ grows => same.mono grows
      · exact .fail _ paren
  | native index arity =>
      simp only [Looped.call, Steps.ofCall, Action.call, length]
      split
      · exact .callNative index paren arguments arguments'
      · exact .fail _ paren
  | nil => simp only [Looped.call]; exact .fail _ paren
  | bool value => simp only [Looped.call]; exact .fail _ paren
  | number value => simp only [Looped.call]; exact .fail _ paren
  | text value => simp only [Looped.call]; exact .fail _ paren

lemma evaluateOr_succ (ih : Accompanied n) (w : World) (layout : Layout) (value : Option Expr) :
    Follows w layout World.Mirrors (Looped.evaluateOr (n + 1) value)
      (Action.evaluateOr (n + 1) (value.map (Expr.revised layout.revision))) := by
  cases value with
  | none =>
      rw [Looped.evaluateOr]
      exact .pure fun _ _ => .nil
  | some value =>
      rw [Looped.evaluateOr]
      exact ih.evaluate w layout value

/-! ## Rounds -/

/-- A round is the body, or a pass through the block of the body and the increment. -/
lemma round (ih : ∀ m ≤ n, Accompanied m) (w : World) (layout : Layout) (body : Statement)
    (increment : Option Expr) : Follows w layout World.Completes (Looped.round n body increment)
      (Action.execute n (body.laidRound layout increment)) := by
  cases increment with
  | none =>
      rw [Looped.round]
      exact (ih n le_rfl).execute w layout body
  | some step =>
      rw [Looped.round, Statement.laidRound, Action.execute_block, Action.executeAll_pair,
        Action.execute_expression]
      refine .padded ?_
      refine ((ih (n - 2) (by omega)).execute w layout.deepen body).bind
        fun later _ completion completion' ended => ?_
      cases ended with
      | normal =>
          exact ((ih (n - 4) (by omega)).evaluate later layout.deepen step).bind
            fun _ _ _ _ _ => .pure fun _ _ => .normal
      | returned same => exact .pure fun _ grows => .returned (same.mono grows)

/-- A missing condition always holds. -/
lemma holds (ih : Accompanied n) (w : World) (layout : Layout) (condition : Option Expr) :
    Follows w layout World.Mirrors
      (Looped.evaluate n (condition.getD (.literal (.bool true))))
      (Action.evaluate n ((condition.map (Expr.revised layout.revision)).getD
        (.literal (.bool true)))) := by
  cases condition with
  | none => exact ih.evaluate w layout (.literal (.bool true))
  | some condition => exact ih.evaluate w layout condition

/-- The rounds of a `for` loop are those of the loop that stands for it. -/
lemma rounds_succ (ih : ∀ m ≤ n, Accompanied m) (w : World) (layout : Layout)
    (condition increment : Option Expr) (body : Statement) : Follows w layout World.Completes
      (Looped.execute (n + 1) (.forLoop none condition increment body))
      (Action.execute (n + 1) ((Statement.forLoop none condition increment body).laid layout)) := by
  have laid := body.laid_forLoop layout condition increment
  rw [Looped.execute, laid]
  refine ((ih n le_rfl).holds w layout condition).bind fun middle _ value value' same => ?_
  rw [← same.alike.isTruthy_eq]
  split
  · refine (round ih middle layout body increment).bind
      fun later _ completion completion' ended => ?_
    cases ended with
    | normal =>
        have again := (ih n le_rfl).execute later layout (.forLoop none condition increment body)
        rw [laid] at again
        exact again
    | returned same => exact .pure fun _ grows => .returned (same.mono grows)
  · exact .pure fun _ _ => .normal

/-- The scope of the first clause is that of the block around the loop. -/
lemma initialized_succ (ih : ∀ m ≤ n, Accompanied m) (w : World) (layout : Layout)
    (first : Initializer) (condition increment : Option Expr) (body : Statement) :
    Follows w layout World.Completes
      (Looped.execute (n + 1) (.forLoop (some first) condition increment body))
      (Action.execute (n + 1)
        ((Statement.forLoop (some first) condition increment body).laid layout)) := by
  rw [Looped.execute]
  refine Follows.current.bind fun middle _ outer outer' around => ?_
  refine (Follows.openScope around).bind fun later _ scope scope' inside => ?_
  refine .within ?_ inside
  rw [Action.executeAll_pair]
  refine ((ih (n - 1) (by omega)).prepare later layout first).bind
    fun last _ _ completion ended => ?_
  subst ended
  exact (ih (n - 2) (by omega)).execute last (0 :: layout)
    (.forLoop none condition increment body)

/-! ## Statements -/

lemma execute_succ (ih : ∀ m ≤ n, Accompanied m) (w : World) (layout : Layout)
    (stmt : Statement) : Follows w layout World.Completes (Looped.execute (n + 1) stmt)
      (Action.execute (n + 1) (stmt.laid layout)) := by
  have here := ih n le_rfl
  cases stmt with
  | expression value =>
      rw [Looped.execute]
      exact (here.evaluate w layout value).bind fun _ _ _ _ _ => .pure fun _ _ => .normal
  | print value =>
      rw [Looped.execute]
      refine (here.evaluate w layout value).bind fun later _ value value' same => ?_
      rw [← same.alike.shown_eq]
      exact (Follows.print _).bind fun _ _ _ _ _ => .pure fun _ _ => .normal
  | block body =>
      rw [Looped.execute]
      refine Follows.current.bind fun middle _ outer outer' around => ?_
      refine (Follows.openScope around).bind fun later _ scope scope' inside => ?_
      exact (here.performAll later layout body).within inside
  | branch condition consequent alternative =>
      rw [Looped.execute.eq_def]
      refine (here.evaluate w layout condition).bind fun later _ value value' same => ?_
      rw [← same.alike.isTruthy_eq]
      split
      · exact here.execute later layout consequent
      · cases alternative with
        | none => exact .pure fun _ _ => .normal
        | some alternative => exact here.execute later layout alternative
  | loop condition body =>
      simp only [Looped.execute]
      refine (here.evaluate w layout condition).bind fun middle _ value value' same => ?_
      rw [← same.alike.isTruthy_eq]
      split
      · refine (here.execute middle layout body).bind
          fun later _ completion completion' ended => ?_
        cases ended with
        | normal => exact here.execute later layout (.loop condition body)
        | returned same => exact .pure fun _ grows => .returned (same.mono grows)
      · exact .pure fun _ _ => .normal
  | forLoop initializer condition increment body =>
      cases initializer with
      | some first => exact initialized_succ ih w layout first condition increment body
      | none => exact rounds_succ ih w layout condition increment body
  | return_ keyword value =>
      rw [Looped.execute]
      exact (here.evaluateOr w layout value).bind fun _ _ _ _ same =>
        .pure fun _ grows => .returned (same.mono grows)

lemma prepare_succ (ih : Accompanied n) (w : World) (layout : Layout) (first : Initializer) :
    Follows w (0 :: layout) (fun _ _ completion => completion = .normal)
      (Looped.prepare (n + 1) first) (Action.execute (n + 1) (first.laid (0 :: layout))) := by
  cases first with
  | «variable» name value =>
      rw [Looped.prepare]
      refine (ih.evaluateOr w (0 :: layout) value).bind fun later _ value value' same => ?_
      exact (Follows.define name same).completed Completion.normal
  | expression value =>
      rw [Looped.prepare]
      exact (ih.evaluate w (0 :: layout) value).bind fun _ _ _ _ _ => .pure fun _ _ => rfl

lemma perform_succ (ih : ∀ m ≤ n, Accompanied m) (w : World) (layout : Layout)
    (declaration : Declaration) : Follows w (0 :: layout) World.Completes
      (Looped.perform (n + 1) declaration)
      (Action.execute (n + 1) (declaration.laid (0 :: layout))) := by
  cases declaration with
  | «variable» name initializer =>
      rw [Looped.perform]
      refine ((ih n le_rfl).evaluateOr w (0 :: layout) initializer).bind
        fun later _ value value' same => ?_
      exact (Follows.define name same).bind fun _ _ _ _ _ => .pure fun _ _ => .normal
  | function name parameters body =>
      rw [Looped.perform]
      exact (Follows.declare name parameters body).bind fun _ _ _ _ _ => .pure fun _ _ => .normal
  | statement stmt =>
      rw [Looped.perform]
      exact execute_succ ih w (0 :: layout) stmt

lemma performAll_succ (ih : Accompanied n) (w : World) (layout : Layout)
    (declarations : List Declaration) : Follows w (0 :: layout) World.Completes
      (Looped.performAll (n + 1) declarations)
      (Action.executeAll (n + 1) (Declaration.laidAll (0 :: layout) declarations)) := by
  cases declarations with
  | nil =>
      rw [Looped.performAll]
      exact .pure fun _ _ => .normal
  | cons first others =>
      rw [Looped.performAll]
      refine (ih.perform w layout first).bind fun later _ completion completion' ended => ?_
      cases ended with
      | normal => exact ih.performAll later layout others
      | returned same => exact .pure fun _ grows => .returned (same.mono grows)

end Accompanied

/-- **A direct run and the run of the blocks stay side by side**, with every allowance. -/
theorem accompanied (n : Nat) : Accompanied n := by
  induction n using Nat.strong_induction_on with
  | _ n ih =>
      cases n with
      | zero =>
          constructor <;> intros <;>
            simp only [evaluate, evaluateAll, call, execute, prepare, evaluateOr, perform, performAll] <;>
            exact .exhausted
      | succ n =>
          have below : ∀ m ≤ n, Accompanied m := fun m le => ih m (Nat.lt_succ_of_le le)
          have here := below n le_rfl
          exact ⟨here.evaluate_succ, here.evaluateAll_succ, here.call_succ,
            Accompanied.execute_succ below, here.prepare_succ, here.evaluateOr_succ,
            Accompanied.perform_succ below, here.performAll_succ⟩

end Looped

end LoxLang
