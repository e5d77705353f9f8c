import LoxLang.Proofs.Binding.Walk
import Mathlib

/-!
# Binding with a stack of scopes

Binding can be done by a walk that keeps its state: a stack of scopes, in which each name is marked as
declared or as ready to be read, a mark for being in a function, the errors told of so far and the table
of hops.  A scope is put on the stack for each block and each function body and taken off behind it.
The walk does what the frames say, and leaves the stack and the mark as they were.

* `Resolver` — the state; `Resolver.declare`, `Resolver.define` and `Resolver.settle` — its changes.
* `Resolver.expression`, `Resolver.statement` — the walk.
* `Frames.scopes` — the stack that the walk has where the names of frames are declared.
* **`Resolver.statement_eq`** — a statement changes the stack as it changes the frames, and adds its
  mistakes and its findings.
* **`Resolver.program_eq`** — behind a program the stack is empty again.
-/

namespace LoxLang

/-- The names of a scope, each with whether it is ready to be read. -/
abbrev Marks := String → Option Bool

/-- The state of the walk. -/
structure Resolver where
  /-- The scopes around the place, the innermost first; without one the place is global. -/
  scopes : List Marks
  inFunction : Bool
  reports : List ScopeReport
  table : Table

namespace Resolver

/-- Puts an empty scope on the stack. -/
def beginScope (r : Resolver) : Resolver := { r with scopes := (fun _ => none) :: r.scopes }

/-- Takes the innermost scope off the stack. -/
def endScope (r : Resolver) : Resolver := { r with scopes := r.scopes.tail }

/-- Tells of an error. -/
def tell (r : Resolver) (error : ScopeError) (place : Token) : Resolver :=
  { r with reports := r.reports ++ [⟨error, place⟩] }

/-- Declares a name in the innermost scope, not ready yet, unless it is there already. -/
def declare (r : Resolver) (name : Token) : Resolver :=
  match r.scopes with
  | [] => r
  | scope :: others =>
    if (scope name.lexeme).isSome then r.tell .declaredTwice name
    else { r with scopes := Function.update scope name.lexeme (some false) :: others }

/-- Makes a name in the innermost scope ready. -/
def define (r : Resolver) (name : Token) : Resolver :=
  match r.scopes with
  | [] => r
  | scope :: others => { r with scopes := Function.update scope name.lexeme (some true) :: others }

/-- Enters the depth of the first scope with the name, if there is one, under a number. -/
def settle (r : Resolver) (number : Option Nat) (name : Token) : Resolver :=
  match r.scopes.findIdx? fun scope => (scope name.lexeme).isSome with
  | some depth => { r with table := r.table.enter ⟨number, some depth⟩ }
  | none => r

/-- Tells of a name that is read before it is ready. -/
def guard (r : Resolver) (name : Token) : Resolver :=
  if r.scopes.head?.bind (· name.lexeme) = some false then r.tell .ownInitializer name else r

mutual

/-- The walk through an expression. -/
def expression (r : Resolver) : Expr → Resolver
  | .literal _ => r
  | .group inner => r.expression inner
  | .unary _ operand => r.expression operand
  | .binary left _ right => (r.expression left).expression right
  | .logical left _ right => (r.expression left).expression right
  | .variable name number => (r.guard name).settle number name
  | .assign name value number => (r.expression value).settle number name
  | .call callee _ arguments => (r.expression callee).expressions arguments

/-- The walk through arguments. -/
def expressions (r : Resolver) : List Expr → Resolver
  | [] => r
  | first :: others => (r.expression first).expressions others

end

/-- The walk through an expression that may be missing. -/
def expression? (r : Resolver) : Option Expr → Resolver
  | none => r
  | some value => r.expression value

mutual

/-- The walk through a statement. -/
def statement (r : Resolver) : Stmt → Resolver
  | .expression value => r.expression value
  | .print value => r.expression value
  | .variable name initializer => ((r.declare name).expression? initializer).define name
  | .block body => (r.beginScope.statements body).endScope
  | .branch condition consequent alternative =>
    ((r.expression condition).statement consequent).statement? alternative
  | .loop condition body => (r.expression condition).statement body
  | .function name parameters body =>
    let named := (r.declare name).define name
    let inside := { named with inFunction := true }.beginScope
    let ready := parameters.foldl (fun r parameter => (r.declare parameter).define parameter) inside
    { (ready.statements body).endScope with inFunction := named.inFunction }
  | .return_ keyword value =>
    (if r.inFunction then r else r.tell .returnOutside keyword).expression? value

/-- The walk through statements. -/
def statements (r : Resolver) : List Stmt → Resolver
  | [] => r
  | first :: others => (r.statement first).statements others

/-- The walk through a statement that may be missing. -/
def statement? (r : Resolver) : Option Stmt → Resolver
  | none => r
  | some stmt => r.statement stmt

end

end Resolver

/-! ## The stack of frames -/

namespace Frames

/-- The scope with some names, of which one may be not ready yet. -/
def scope (unready : Option String) (names : List String) : Marks := fun name =>
  if names.contains name then some (decide (unready ≠ some name)) else none

/-- The stack with the names of some frames, where one of the innermost may be not ready yet. -/
def scopes (unready : Option String) : Frames → List Marks
  | [] => []
  | innermost :: others => scope unready innermost :: others.map (scope none)

variable {unready : Option String} {name : Token} {frames : Frames}

lemma isSome_scope (names : List String) (name : String) :
    (scope unready names name).isSome = names.contains name := by
  rw [scope]
  cases names.contains name <;> rfl

lemma scopes_none (frames : Frames) : scopes none frames = frames.map (scope none) := by
  cases frames <;> rfl

/-- A name that is declared once more is in the scope already. -/
lemma scope_cons_of_contains {names : List String} {name : String} (listed : names.contains name) :
    scope none (name :: names) = scope none names := by
  have same (other : String) : (name :: names).contains other = names.contains other := by
    rw [List.contains_cons]
    by_cases here : other = name
    · rw [here, listed, Bool.or_true]
    · rw [beq_eq_false_iff_ne.mpr here, Bool.false_or]
  funext other
  rw [scope, scope, same]

lemma update_scope_false {names : List String} (name : String) :
    Function.update (scope none names) name (some false) = scope (some name) (name :: names) := by
  funext other
  by_cases here : other = name
  · simp [scope, here]
  · simp [scope, here, Ne.symm here]

/-- Whichever name was not ready, behind its definition all names are. -/
lemma update_scope_true {names : List String} {name : String}
    (own : ∀ other, unready = some other → other = name) :
    Function.update (scope unready (name :: names)) name (some true)
      = scope none (name :: names) := by
  funext other
  by_cases here : other = name
  · simp [scope, here]
  · have ready : unready ≠ some other := fun same => here (own other same)
    simp [scope, here, ready]

lemma findIdx?_scopes (unready : Option String) (frames : Frames) (name : String) :
    (scopes unready frames).findIdx? (fun scope => (scope name).isSome) = frames.hops? name := by
  cases frames with
  | nil => rfl
  | cons innermost others =>
      rw [scopes, hops?, List.findIdx?_cons, List.findIdx?_cons, isSome_scope, List.findIdx?_map]
      simp only [Function.comp_def, isSome_scope]

/-- The name that is not ready is one of the innermost scope. -/
def Lists (frames : Frames) (unready : Option String) : Prop :=
  ∀ name, unready = some name → frames.head?.any (·.contains name)

lemma lists_none (frames : Frames) : frames.Lists none := fun _ absent => by cases absent

lemma lists_unready (frames : Frames) (name : Token) :
    (frames.declare name).Lists (frames.unready? name) := by
  intro other unready
  rw [unready?] at unready
  split_ifs at unready with condition
  obtain rfl := Option.some.inj unready
  cases frames with
  | nil => simp at condition
  | cons innermost others => simp [declare]

/-! Declarations leave all scopes but the innermost as they are. -/

lemma tail_declare (frames : Frames) (name : Token) : (frames.declare name).tail = frames.tail := by
  cases frames <;> rfl

lemma tail_foldl_declare (names : List Token) : ∀ frames : Frames,
    (names.foldl declare frames).tail = frames.tail := by
  induction names with
  | nil => exact fun _ => rfl
  | cons name names ih => exact fun frames => (ih _).trans (tail_declare frames name)

lemma tail_foldl_behind (stmts : List Stmt) : ∀ frames : Frames,
    (stmts.foldl behind frames).tail = frames.tail := by
  induction stmts with
  | nil => exact fun _ => rfl
  | cons first others ih =>
      exact fun frames => (ih _).trans (tail_foldl_declare first.declared frames)

end Frames

/-! ## The walk does what the frames say -/

namespace Resolver

variable {frames : Frames} {unready : Option String} {inFunction : Bool}
  {reports : List ScopeReport} {table : Table}

lemma settle_eq (number : Option Nat) (name : Token) :
    (⟨frames.scopes unready, inFunction, reports, table⟩ : Resolver).settle number name
      = ⟨frames.scopes unready, inFunction, reports,
        table.enter ⟨number, frames.hops? name.lexeme⟩⟩ := by
  rw [settle, Frames.findIdx?_scopes]
  cases frames.hops? name.lexeme with
  | none => rw [Table.enter_none]
  | some depth => rfl

lemma guard_eq (listed : frames.Lists unready) (name : Token) :
    (⟨frames.scopes unready, inFunction, reports, table⟩ : Resolver).guard name
      = ⟨frames.scopes unready, inFunction,
        reports ++ if unready = some name.lexeme then [⟨.ownInitializer, name⟩] else [], table⟩ := by
  have early : (frames.scopes unready).head?.bind (· name.lexeme) = some false
      ↔ unready = some name.lexeme := by
    cases frames with
    | nil =>
        refine iff_of_false (by simp [Frames.scopes]) fun same => ?_
        exact absurd (listed _ same) (by simp)
    | cons innermost others =>
        rw [Frames.scopes, List.head?_cons, Option.bind_some, Frames.scope]
        constructor
        · intro held
          split_ifs at held
          simpa using held
        · intro same
          have found := listed _ same
          rw [List.head?_cons, Option.any_some, List.contains_iff_mem] at found
          simp [found, same]
  rw [guard]
  by_cases same : unready = some name.lexeme
  · rw [if_pos (early.mpr same), if_pos same, tell]
  · rw [if_neg (same ∘ early.mp), if_neg same, List.append_nil]

mutual

/-- An expression changes nothing but the table and the errors. -/
lemma expression_eq (listed : frames.Lists unready) : ∀ (value : Expr) (reports : List ScopeReport)
    (table : Table),
    (⟨frames.scopes unready, inFunction, reports, table⟩ : Resolver).expression value
      = ⟨frames.scopes unready, inFunction, reports ++ value.mistakes unready,
        table.enterAll (value.findings frames)⟩
  | .literal _, reports, table => by simp [expression, Expr.mistakes, Expr.findings,
      Expr.occurrences, Table.enterAll]
  | .group inner, reports, table => expression_eq listed inner reports table
  | .unary _ operand, reports, table => expression_eq listed operand reports table
  | .binary left _ right, reports, table => by
      rw [expression, expression_eq listed left, expression_eq listed right, Expr.mistakes,
        List.append_assoc, Expr.findings, Expr.findings, Expr.findings, Expr.occurrences,
        List.map_append, Table.enterAll_append]
  | .logical left _ right, reports, table => by
      rw [expression, expression_eq listed left, expression_eq listed right, Expr.mistakes,
        List.append_assoc, Expr.findings, Expr.findings, Expr.findings, Expr.occurrences,
        List.map_append, Table.enterAll_append]
  | .variable name number, reports, table => by
      rw [expression, guard_eq listed, settle_eq, Expr.mistakes, Expr.findings, Expr.occurrences]
      rfl
  | .assign name value number, reports, table => by
      rw [expression, expression_eq listed value, settle_eq, Expr.mistakes, Expr.findings,
        Expr.findings, Expr.occurrences, List.map_append, Table.enterAll_append]
      rfl
  | .call callee _ arguments, reports, table => by
      rw [expression, expression_eq listed callee, expressions_eq listed arguments, Expr.mistakes,
        List.append_assoc, Expr.findings, Expr.findings, Expr.occurrences, List.map_append,
        Table.enterAll_append]

lemma expressions_eq (listed : frames.Lists unready) : ∀ (values : List Expr)
    (reports : List ScopeReport) (table : Table),
    (⟨frames.scopes unready, inFunction, reports, table⟩ : Resolver).expressions values
      = ⟨frames.scopes unready, inFunction, reports ++ Expr.mistakesAll unready values,
        table.enterAll ((Expr.occurrencesAll values).map fun occurrence =>
          ⟨occurrence.hops, frames.hops? occurrence.name.lexeme⟩)⟩
  | [], reports, table => by simp [expressions, Expr.mistakesAll, Expr.occurrencesAll,
      Table.enterAll]
  | first :: others, reports, table => by
      rw [expressions, expression_eq listed first, expressions_eq listed others, Expr.mistakesAll,
        List.append_assoc, Expr.findings, Expr.occurrencesAll, List.map_append,
        Table.enterAll_append]

end

lemma expression?_eq (listed : frames.Lists unready) (value : Option Expr) :
    (⟨frames.scopes unready, inFunction, reports, table⟩ : Resolver).expression? value
      = ⟨frames.scopes unready, inFunction, reports ++ Expr.mistakes? unready value,
        table.enterAll (Expr.findings? frames value)⟩ := by
  cases value with
  | none => simp [expression?, Expr.mistakes?, Expr.findings?, Table.enterAll]
  | some value => exact expression_eq listed value reports table

lemma declare_eq (name : Token) :
    (⟨frames.scopes none, inFunction, reports, table⟩ : Resolver).declare name
      = ⟨(frames.declare name).scopes (frames.unready? name), inFunction,
        reports ++ frames.declaredTwice name, table⟩ := by
  cases frames with
  | nil => simp [declare, Frames.scopes, Frames.declare, Frames.declaredTwice, Frames.declares]
  | cons innermost others =>
      have declares : Frames.declares (innermost :: others) name = innermost.contains name.lexeme := rfl
      rw [Frames.scopes, declare]
      dsimp only
      rw [Frames.isSome_scope, Frames.declaredTwice, Frames.unready?, declares, List.isEmpty_cons,
        Bool.false_or, Frames.declare, Frames.scopes]
      cases listed : innermost.contains name.lexeme with
      | true => simp [tell, Frames.scope_cons_of_contains listed]
      | false => simp [Frames.update_scope_false]

lemma define_eq (name : Token) :
    (⟨(frames.declare name).scopes (frames.unready? name), inFunction, reports, table⟩
        : Resolver).define name
      = ⟨(frames.declare name).scopes none, inFunction, reports, table⟩ := by
  cases frames with
  | nil => rfl
  | cons innermost others =>
      have own : ∀ other, Frames.unready? (innermost :: others) name = some other →
          other = name.lexeme := by
        intro other unready
        rw [Frames.unready?] at unready
        split_ifs at unready
        exact (Option.some.inj unready).symm
      rw [Frames.declare, Frames.scopes, define]
      dsimp only
      rw [Frames.update_scope_true own, Frames.scopes]

/-- A name that is ready as soon as it is declared. -/
lemma define_declare (name : Token) (reports : List ScopeReport) :
    ((⟨frames.scopes none, inFunction, reports, table⟩ : Resolver).declare name).define name
      = ⟨(frames.declare name).scopes none, inFunction, reports ++ frames.declaredTwice name,
        table⟩ := by
  rw [declare_eq, define_eq]

lemma foldl_define_declare : ∀ (names : List Token) (frames : Frames) (reports : List ScopeReport),
    names.foldl (fun r name => (r.declare name).define name)
        (⟨frames.scopes none, inFunction, reports, table⟩ : Resolver)
      = ⟨(names.foldl Frames.declare frames).scopes none, inFunction,
        reports ++ Frames.repeated frames names, table⟩
  | [], frames, reports => by simp [Frames.repeated]
  | name :: names, frames, reports => by
      rw [List.foldl_cons, define_declare, foldl_define_declare names, List.foldl_cons,
        Frames.repeated, List.append_assoc]

lemma beginScope_eq : (⟨frames.scopes none, inFunction, reports, table⟩ : Resolver).beginScope
    = ⟨Frames.scopes none ([] :: frames), inFunction, reports, table⟩ := by
  rw [beginScope, Frames.scopes, Frames.scopes_none]
  rfl

/-- Behind the innermost scope the others are as they were. -/
lemma endScope_eq {inside : Frames} (outer : inside.tail = frames) :
    (⟨inside.scopes none, inFunction, reports, table⟩ : Resolver).endScope
      = ⟨frames.scopes none, inFunction, reports, table⟩ := by
  subst outer
  rw [endScope, Frames.scopes_none, Frames.scopes_none, List.map_tail]

mutual

/-- **A statement changes the stack as it changes the frames**, keeps the mark, adds its mistakes to the
errors told of, and enters its findings in the table. -/
theorem statement_eq : ∀ (stmt : Stmt) (frames : Frames) (inFunction : Bool)
    (reports : List ScopeReport) (table : Table),
    (⟨frames.scopes none, inFunction, reports, table⟩ : Resolver).statement stmt
      = ⟨(frames.behind stmt).scopes none, inFunction, reports ++ stmt.mistakes frames inFunction,
        table.enterAll (stmt.findings frames)⟩
  | .expression value, frames, inFunction, reports, table =>
      expression_eq (frames.lists_none) value reports table
  | .print value, frames, inFunction, reports, table =>
      expression_eq (frames.lists_none) value reports table
  | .variable name initializer, frames, inFunction, reports, table => by
      rw [statement, declare_eq, expression?_eq (frames.lists_unready name), define_eq,
        Stmt.mistakes, List.append_assoc, Stmt.findings]
      rfl
  | .block body, frames, inFunction, reports, table => by
      rw [statement, beginScope_eq, statements_eq body,
        endScope_eq (Frames.tail_foldl_behind body _), Stmt.mistakes, Stmt.findings]
      rfl
  | .branch condition consequent alternative, frames, inFunction, reports, table => by
      have behind : frames.behind (.branch condition consequent alternative)
          = (Stmt.declared? alternative).foldl Frames.declare (frames.behind consequent) := by
        rw [Frames.behind, Stmt.declared, List.foldl_append, Frames.behind]
      rw [behind, statement, expression_eq (frames.lists_none) condition, statement_eq consequent,
        statement?_eq alternative, Stmt.mistakes, Stmt.findings, Table.enterAll_append,
        Table.enterAll_append, List.append_assoc, List.append_assoc, List.append_assoc]
  | .loop condition body, frames, inFunction, reports, table => by
      rw [statement, expression_eq (frames.lists_none) condition, statement_eq body, Stmt.mistakes,
        Stmt.findings, Table.enterAll_append, List.append_assoc]
      rfl
  | .function name parameters body, frames, inFunction, reports, table => by
      have outer : (body.foldl Frames.behind ((frames.declare name).enter parameters)).tail
          = frames.declare name := by
        rw [Frames.tail_foldl_behind, Frames.enter, Frames.tail_foldl_declare, List.tail_cons]
      rw [statement, define_declare]
      dsimp only
      rw [beginScope_eq, foldl_define_declare, ← Frames.enter, statements_eq body, endScope_eq outer,
        Stmt.mistakes, Stmt.findings]
      simp only [List.append_assoc]
      rfl
  | .return_ keyword value, frames, inFunction, reports, table => by
      have ready := frames.lists_none
      rw [statement, Stmt.mistakes, Stmt.findings]
      cases inFunction with
      | true => exact expression?_eq ready value
      | false =>
          rw [if_neg Bool.false_ne_true, tell, expression?_eq ready value, if_neg Bool.false_ne_true,
            List.append_assoc]
          rfl

lemma statements_eq : ∀ (stmts : List Stmt) (frames : Frames) (inFunction : Bool)
    (reports : List ScopeReport) (table : Table),
    (⟨frames.scopes none, inFunction, reports, table⟩ : Resolver).statements stmts
      = ⟨(stmts.foldl Frames.behind frames).scopes none, inFunction,
        reports ++ Stmt.mistakesAll frames inFunction stmts,
        table.enterAll (Stmt.findingsAll frames stmts)⟩
  | [], frames, inFunction, reports, table => by
      simp [statements, Stmt.mistakesAll, Stmt.findingsAll, Table.enterAll]
  | first :: others, frames, inFunction, reports, table => by
      rw [statements, statement_eq first, statements_eq others, Stmt.mistakesAll, Stmt.findingsAll,
        Table.enterAll_append, List.append_assoc, List.foldl_cons]

lemma statement?_eq : ∀ (stmt : Option Stmt) (frames : Frames) (inFunction : Bool)
    (reports : List ScopeReport) (table : Table),
    (⟨frames.scopes none, inFunction, reports, table⟩ : Resolver).statement? stmt
      = ⟨((Stmt.declared? stmt).foldl Frames.declare frames).scopes none, inFunction,
        reports ++ Stmt.mistakes? frames inFunction stmt,
        table.enterAll (Stmt.findings? frames stmt)⟩
  | none, frames, inFunction, reports, table => by
      simp [statement?, Stmt.declared?, Stmt.mistakes?, Stmt.findings?, Table.enterAll]
  | some stmt, frames, inFunction, reports, table =>
      statement_eq stmt frames inFunction reports table

end

/-- **Behind a program the stack is empty again** and the mark is off; the mistakes have been told of
and the findings entered. -/
theorem program_eq (program : List Stmt) (reports : List ScopeReport) (table : Table) :
    (⟨[], false, reports, table⟩ : Resolver).statements program
      = ⟨[], false, reports ++ Program.mistakes program,
        table.enterAll (Stmt.findingsAll [] program)⟩ := by
  have whole := statements_eq program [] false reports table
  rw [Frames.foldl_behind_nil] at whole
  exact whole

end Resolver

end LoxLang
