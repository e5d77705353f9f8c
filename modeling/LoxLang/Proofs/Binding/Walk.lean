import LoxLang.Proofs.Binding.Declared
import LoxLang.Proofs.Binding.Numbering
import Mathlib

/-!
# Enclosures

The way from a program to a statement in it, told by the program text alone: through which blocks and
function bodies it leads, and behind which statements of each.  The walk that binding takes meets each
statement with just the names that are declared on that way.

* `Spot`, `Stmt.walk` — the statements in the order in which the walk meets them, with the frames
  there.
* **`Stmt.findings_walk`**, **`Stmt.mistakes_walk`** — what is found, and the mistakes, spot by spot.
* `Enclosure` — a block or function body around a place; `Within` — the way to a statement.
* **`Stmt.mem_walk_iff`** — a statement is met exactly on the ways to it, with the names declared
  there.
-/

namespace LoxLang

/-! ## The walk -/

/-- A statement where the walk meets it: the names declared so far in the scopes around it, and whether
it stands in a function. -/
structure Spot where
  frames : Frames
  inFunction : Bool
  stmt : Stmt

mutual

/-- A statement and those in it, in the order in which the walk meets them. -/
def Stmt.walk (frames : Frames) (inFunction : Bool) : Stmt → List Spot
  | .expression value => [⟨frames, inFunction, .expression value⟩]
  | .print value => [⟨frames, inFunction, .print value⟩]
  | .variable name initializer => [⟨frames, inFunction, .variable name initializer⟩]
  | .block body =>
    ⟨frames, inFunction, .block body⟩ :: Stmt.walkAll ([] :: frames) inFunction body
  | .branch condition consequent alternative =>
    ⟨frames, inFunction, .branch condition consequent alternative⟩
      :: (consequent.walk frames inFunction
        ++ Stmt.walk? (frames.behind consequent) inFunction alternative)
  | .loop condition body =>
    ⟨frames, inFunction, .loop condition body⟩ :: body.walk frames inFunction
  | .function name parameters body =>
    ⟨frames, inFunction, .function name parameters body⟩
      :: Stmt.walkAll ((frames.declare name).enter parameters) true body
  | .return_ keyword value => [⟨frames, inFunction, .return_ keyword value⟩]

/-- Statements one behind the other, with those in them. -/
def Stmt.walkAll (frames : Frames) (inFunction : Bool) : List Stmt → List Spot
  | [] => []
  | first :: others =>
    first.walk frames inFunction ++ Stmt.walkAll (frames.behind first) inFunction others

/-- A statement that may be missing, with those in it. -/
def Stmt.walk? (frames : Frames) (inFunction : Bool) : Option Stmt → List Spot
  | none => []
  | some stmt => stmt.walk frames inFunction

end

/-- The expressions that stand directly in a statement. -/
def Stmt.values : Stmt → List Expr
  | .expression value => [value]
  | .print value => [value]
  | .variable _ initializer => initializer.toList
  | .block _ => []
  | .branch condition _ _ => [condition]
  | .loop condition _ => [condition]
  | .function _ _ _ => []
  | .return_ _ value => value.toList

/-- The frames in which the parts of a statement stand: what it declares counts in it already. -/
def Frames.inside (frames : Frames) (stmt : Stmt) : Frames :=
  match stmt.declaration? with
  | some name => frames.declare name
  | none => frames

namespace Spot

/-- The occurrences in the expressions of the statement itself. -/
def occurrences (spot : Spot) : List Occurrence := spot.stmt.values.flatMap Expr.occurrences

/-- What is found for the occurrences in the expressions of the statement itself. -/
def findings (spot : Spot) : List Finding :=
  spot.stmt.values.flatMap (Expr.findings (spot.frames.inside spot.stmt))

/-- The mistakes of the statement itself. -/
def mistakes (spot : Spot) : List ScopeReport :=
  match spot.stmt with
  | .variable name initializer =>
    spot.frames.declaredTwice name ++ Expr.mistakes? (spot.frames.unready? name) initializer
  | .function name parameters _ =>
    spot.frames.declaredTwice name ++ Frames.repeated ([] :: spot.frames.declare name) parameters
  | .return_ keyword _ => if spot.inFunction then [] else [⟨.returnOutside, keyword⟩]
  | _ => []

end Spot

/-- Only an initializer has mistakes in it. -/
lemma Expr.mistakes_none (value : Expr) : value.mistakes none = [] :=
  (value.mistakes_eq_nil_iff none).mpr fun _ _ _ absent => by cases absent

lemma Expr.mistakes?_none (value : Option Expr) : Expr.mistakes? none value = [] := by
  cases value with
  | none => rfl
  | some value => exact value.mistakes_none

mutual

/-- **What is found in a statement is found at the spots.** -/
theorem Stmt.findings_walk (inFunction : Bool) : ∀ (stmt : Stmt) (frames : Frames),
    stmt.findings frames = (stmt.walk frames inFunction).flatMap Spot.findings
  | .expression _, _ | .print _, _ => by
      simp [findings, walk, Spot.findings, values, Frames.inside, declaration?]
  | .variable _ initializer, _ => by
      cases initializer <;>
        simp [findings, walk, Spot.findings, values, Frames.inside, declaration?, Expr.findings?]
  | .block body, frames => by
      simp [findings, walk, Spot.findings, values, Stmt.findingsAll_walk inFunction body]
  | .branch _ consequent alternative, frames => by
      simp [findings, walk, Spot.findings, values, Frames.inside, declaration?,
        Stmt.findings_walk inFunction consequent, Stmt.findings?_walk inFunction alternative]
  | .loop _ body, frames => by
      simp [findings, walk, Spot.findings, values, Frames.inside, declaration?,
        Stmt.findings_walk inFunction body]
  | .function _ _ body, frames => by
      simp [findings, walk, Spot.findings, values, Stmt.findingsAll_walk true body]
  | .return_ _ value, _ => by
      cases value <;>
        simp [findings, walk, Spot.findings, values, Frames.inside, declaration?, Expr.findings?]

lemma Stmt.findingsAll_walk (inFunction : Bool) : ∀ (stmts : List Stmt) (frames : Frames),
    Stmt.findingsAll frames stmts = (Stmt.walkAll frames inFunction stmts).flatMap Spot.findings
  | [], _ => rfl
  | first :: others, frames => by
      simp [findingsAll, walkAll, Stmt.findings_walk inFunction first,
        Stmt.findingsAll_walk inFunction others]

lemma Stmt.findings?_walk (inFunction : Bool) : ∀ (stmt : Option Stmt) (frames : Frames),
    Stmt.findings? frames stmt = (Stmt.walk? frames inFunction stmt).flatMap Spot.findings
  | none, _ => rfl
  | some stmt, frames => Stmt.findings_walk inFunction stmt frames

end

mutual

/-- The occurrences in a statement are those at the spots. -/
lemma Stmt.occurrences_walk (inFunction : Bool) : ∀ (stmt : Stmt) (frames : Frames),
    stmt.occurrences = (stmt.walk frames inFunction).flatMap Spot.occurrences
  | .expression _, _ | .print _, _ => by simp [occurrences, walk, Spot.occurrences, values]
  | .variable _ initializer, _ => by
      cases initializer <;> simp [occurrences, walk, Spot.occurrences, values, Expr.occurrences?]
  | .block body, frames => by
      simp [occurrences, walk, Spot.occurrences, values,
        Stmt.occurrencesAll_walk inFunction body ([] :: frames)]
  | .branch _ consequent alternative, frames => by
      simp [occurrences, walk, Spot.occurrences, values,
        Stmt.occurrences_walk inFunction consequent frames,
        Stmt.occurrences?_walk inFunction alternative (frames.behind consequent)]
  | .loop _ body, frames => by
      simp [occurrences, walk, Spot.occurrences, values,
        Stmt.occurrences_walk inFunction body frames]
  | .function name parameters body, frames => by
      simp [occurrences, walk, Spot.occurrences, values,
        Stmt.occurrencesAll_walk true body ((frames.declare name).enter parameters)]
  | .return_ _ value, _ => by
      cases value <;> simp [occurrences, walk, Spot.occurrences, values, Expr.occurrences?]

lemma Stmt.occurrencesAll_walk (inFunction : Bool) : ∀ (stmts : List Stmt) (frames : Frames),
    Stmt.occurrencesAll stmts = (Stmt.walkAll frames inFunction stmts).flatMap Spot.occurrences
  | [], _ => rfl
  | first :: others, frames => by
      simp [occurrencesAll, walkAll, Stmt.occurrences_walk inFunction first frames,
        Stmt.occurrencesAll_walk inFunction others (frames.behind first)]

lemma Stmt.occurrences?_walk (inFunction : Bool) : ∀ (stmt : Option Stmt) (frames : Frames),
    Stmt.occurrences? stmt = (Stmt.walk? frames inFunction stmt).flatMap Spot.occurrences
  | none, _ => rfl
  | some stmt, frames => Stmt.occurrences_walk inFunction stmt frames

end

mutual

/-- **The mistakes in a statement are those at the spots.** -/
theorem Stmt.mistakes_walk : ∀ (stmt : Stmt) (frames : Frames) (inFunction : Bool),
    stmt.mistakes frames inFunction = (stmt.walk frames inFunction).flatMap Spot.mistakes
  | .expression value, _, _ | .print value, _, _ => by
      simp [mistakes, walk, Spot.mistakes, value.mistakes_none]
  | .variable _ _, _, _ => by simp [mistakes, walk, Spot.mistakes]
  | .block body, _, _ => by simp [mistakes, walk, Spot.mistakes, Stmt.mistakesAll_walk body]
  | .branch condition consequent alternative, _, _ => by
      simp [mistakes, walk, Spot.mistakes, condition.mistakes_none, Stmt.mistakes_walk consequent,
        Stmt.mistakes?_walk alternative]
  | .loop condition body, _, _ => by
      simp [mistakes, walk, Spot.mistakes, condition.mistakes_none, Stmt.mistakes_walk body]
  | .function _ _ body, _, _ => by
      simp [mistakes, walk, Spot.mistakes, Stmt.mistakesAll_walk body]
  | .return_ _ value, _, _ => by
      simp [mistakes, walk, Spot.mistakes, Expr.mistakes?_none]

lemma Stmt.mistakesAll_walk : ∀ (stmts : List Stmt) (frames : Frames) (inFunction : Bool),
    Stmt.mistakesAll frames inFunction stmts
      = (Stmt.walkAll frames inFunction stmts).flatMap Spot.mistakes
  | [], _, _ => rfl
  | first :: others, _, _ => by
      simp [mistakesAll, walkAll, Stmt.mistakes_walk first, Stmt.mistakesAll_walk others]

lemma Stmt.mistakes?_walk : ∀ (stmt : Option Stmt) (frames : Frames) (inFunction : Bool),
    Stmt.mistakes? frames inFunction stmt
      = (Stmt.walk? frames inFunction stmt).flatMap Spot.mistakes
  | none, _, _ => rfl
  | some stmt, frames, inFunction => Stmt.mistakes_walk stmt frames inFunction

end

/-! ## Enclosures -/

/-- A block or the body of a function around a place. -/
structure Enclosure where
  /-- The parameters, if it is the body of a function. -/
  parameters : Option (List Token)
  /-- The statements of the body before the one that the place is in. -/
  before : List Stmt
  /-- The statement of the body that the place is in. -/
  here : Stmt

namespace Enclosure

/-- The names declared in front of the statement that the place is in. -/
def earlier (enclosure : Enclosure) : List Token :=
  enclosure.parameters.getD [] ++ enclosure.before.filterMap Stmt.declaration?

/-- The names declared at the place.  That of a variable counts in its own initializer, that of a
function in its own body. -/
def declared (enclosure : Enclosure) : List Token :=
  enclosure.earlier ++ enclosure.here.declaration?.toList

/-- Whether the enclosure declares a name at the place. -/
def declares (enclosure : Enclosure) (name : String) : Bool :=
  enclosure.declared.any (·.lexeme == name)

/-- Whether one of the enclosures is the body of a function. -/
def inFunction (enclosures : List Enclosure) : Bool := enclosures.any (·.parameters.isSome)

/-- The frames inside a statement with these enclosures. -/
def frames (enclosures : List Enclosure) : Frames :=
  enclosures.map fun enclosure => (enclosure.declared.map Token.lexeme).reverse

/-- The frames in front of a statement with these enclosures. -/
def framesBefore : List Enclosure → Frames
  | [] => []
  | innermost :: others => (innermost.earlier.map Token.lexeme).reverse :: frames others

end Enclosure

/-- **The way to a statement**: the blocks and function bodies around it, the innermost first. -/
inductive Within (program : List Stmt) : List Enclosure → Stmt → Prop where
  | top {stmt} : stmt ∈ program → Within program [] stmt
  | block {enclosures before stmt after} :
      Within program enclosures (.block (before ++ stmt :: after)) →
      Within program (⟨none, before, stmt⟩ :: enclosures) stmt
  | function {enclosures name parameters before stmt after} :
      Within program enclosures (.function name parameters (before ++ stmt :: after)) →
      Within program (⟨some parameters, before, stmt⟩ :: enclosures) stmt
  | consequent {enclosures condition stmt alternative} :
      Within program enclosures (.branch condition stmt alternative) →
      Within program enclosures stmt
  | alternative {enclosures condition consequent stmt} :
      Within program enclosures (.branch condition consequent (some stmt)) →
      Within program enclosures stmt
  | loop {enclosures condition stmt} :
      Within program enclosures (.loop condition stmt) → Within program enclosures stmt

/-! ## What stands before -/

lemma Frames.foldl_declare_cons (innermost : List String) (others : Frames) :
    ∀ names : List Token, names.foldl declare (innermost :: others)
      = ((names.map Token.lexeme).reverse ++ innermost) :: others := by
  intro names
  induction names generalizing innermost with
  | nil => rfl
  | cons name names ih =>
      rw [List.foldl_cons, declare, ih, List.map_cons, List.reverse_cons, List.append_assoc]
      rfl

lemma Stmt.declared_of_orderly {stmt : Stmt} (orderly : stmt.Orderly) :
    stmt.declared = stmt.declaration?.toList := by
  cases stmt with
  | branch condition consequent alternative =>
      obtain ⟨consequent, -, alternative, -⟩ := orderly
      rw [declared, consequent, alternative]
      rfl
  | loop condition body => exact orderly.1
  | _ => rfl

lemma Stmt.declaration?_of_declared {stmt : Stmt} (nothing : stmt.declared = []) :
    stmt.declaration? = none := by
  cases stmt with
  | «variable» name initializer => cases nothing
  | function name parameters body => cases nothing
  | _ => rfl

lemma Stmt.orderlyAll_iff {stmts : List Stmt} :
    Stmt.OrderlyAll stmts ↔ ∀ stmt ∈ stmts, stmt.Orderly := by
  induction stmts with
  | nil => exact iff_of_true trivial (by simp)
  | cons first others ih => rw [Stmt.OrderlyAll, ih, List.forall_mem_cons]

/-- The frames behind statements, as their declarations make them. -/
lemma Frames.foldl_behind_cons (innermost : List String) (others : Frames) :
    ∀ {stmts : List Stmt}, Stmt.OrderlyAll stmts → stmts.foldl behind (innermost :: others)
      = (((stmts.filterMap Stmt.declaration?).map Token.lexeme).reverse ++ innermost) :: others := by
  intro stmts orderly
  induction stmts generalizing innermost with
  | nil => rfl
  | cons first stmts ih =>
      rw [List.foldl_cons, behind, Stmt.declared_of_orderly orderly.1, foldl_declare_cons,
        ih _ orderly.2]
      cases declares : first.declaration? with
      | none => rw [List.filterMap_cons_none declares]; rfl
      | some name => rw [List.filterMap_cons_some declares]; simp

lemma Frames.foldl_behind_nil (stmts : List Stmt) : stmts.foldl behind [] = [] := by
  induction stmts with
  | nil => rfl
  | cons first others ih =>
      have outside (names : List Token) : names.foldl declare [] = [] := by
        induction names with
        | nil => rfl
        | cons name names ih => exact ih
      rw [List.foldl_cons, behind, outside, ih]

/-! ## Visits are ways -/

/-- The statements that stand directly in a statement. -/
def Stmt.parts : Stmt → List Stmt
  | .block body => body
  | .branch _ consequent alternative => consequent :: alternative.toList
  | .loop _ body => [body]
  | .function _ _ body => body
  | _ => []

lemma Stmt.sizeOf_lt_of_mem_parts : ∀ {stmt part : Stmt}, part ∈ stmt.parts → sizeOf part < sizeOf stmt
  | .block body, part, listed => by
      have smaller : sizeOf part < sizeOf body := List.sizeOf_lt_of_mem listed
      rw [Stmt.block.sizeOf_spec]
      omega
  | .branch _ consequent alternative, part, listed => by
      rw [Stmt.branch.sizeOf_spec]
      rcases List.mem_cons.mp listed with rfl | listed
      · omega
      · obtain rfl := Option.mem_toList.mp listed
        rw [Option.some.sizeOf_spec]
        omega
  | .loop _ body, part, listed => by
      rw [List.mem_singleton.mp listed, Stmt.loop.sizeOf_spec]
      omega
  | .function _ _ body, part, listed => by
      have smaller : sizeOf part < sizeOf body := List.sizeOf_lt_of_mem listed
      rw [Stmt.function.sizeOf_spec]
      omega

/-- What holds of a statement when it holds of those in it holds of every statement. -/
theorem Stmt.parts_induction {P : Stmt → Prop} (step : ∀ stmt, (∀ part ∈ stmt.parts, P part) → P stmt)
    (stmt : Stmt) : P stmt :=
  step stmt fun part _ => Stmt.parts_induction step part
termination_by sizeOf stmt
decreasing_by exact Stmt.sizeOf_lt_of_mem_parts ‹_›

lemma Stmt.mem_walkAll_iff {spot : Spot} {inFunction : Bool} : ∀ {stmts : List Stmt} {frames : Frames},
    spot ∈ Stmt.walkAll frames inFunction stmts ↔ ∃ before stmt after,
      stmts = before ++ stmt :: after ∧ spot ∈ stmt.walk (before.foldl Frames.behind frames) inFunction
  | [], frames => by simp [walkAll]
  | first :: others, frames => by
      rw [walkAll, List.mem_append, Stmt.mem_walkAll_iff]
      constructor
      · rintro (here | ⟨before, stmt, after, rfl, there⟩)
        · exact ⟨[], first, others, rfl, here⟩
        · exact ⟨first :: before, stmt, after, rfl, there⟩
      · rintro ⟨_ | ⟨_, before⟩, stmt, after, parts, visited⟩
        · obtain ⟨rfl, rfl⟩ := List.cons.inj parts
          exact Or.inl visited
        · obtain ⟨rfl, rfl⟩ := List.cons.inj parts
          exact Or.inr ⟨before, stmt, after, rfl, visited⟩

/-- The frames in a body, behind its first statements. -/
lemma Enclosure.foldl_behind (parameters : Option (List Token)) {before : List Stmt} (here : Stmt)
    (enclosures : List Enclosure) (orderly : Stmt.OrderlyAll before) :
    before.foldl Frames.behind
        (((parameters.getD []).map Token.lexeme).reverse :: Enclosure.frames enclosures)
      = Enclosure.framesBefore (⟨parameters, before, here⟩ :: enclosures) := by
  rw [Frames.foldl_behind_cons _ _ orderly, Enclosure.framesBefore, Enclosure.earlier,
    List.map_append, List.reverse_append]

section Ways

variable {program before after : List Stmt} {enclosures : List Enclosure} {stmt : Stmt}
variable (ordered : Stmt.OrderlyAll program)

include ordered

lemma Within.orderly (within : Within program enclosures stmt) : stmt.Orderly := by
  induction within with
  | top listed => exact Stmt.orderlyAll_iff.mp ordered _ listed
  | block _ ih => exact Stmt.orderlyAll_iff.mp ih _ (by simp)
  | function _ ih => exact Stmt.orderlyAll_iff.mp ih _ (by simp)
  | consequent _ ih => exact ih.2.1
  | alternative _ ih => exact ih.2.2.2
  | loop _ ih => exact ih.2

/-- A statement declares what its innermost enclosure declares at the place: a declaration stands in
that one directly. -/
lemma Within.declaration?_here {innermost : Enclosure}
    (within : Within program (innermost :: enclosures) stmt) :
    innermost.here.declaration? = stmt.declaration? := by
  generalize whole : innermost :: enclosures = all at within
  induction within with
  | top => cases whole
  | block => cases whole; rfl
  | function => cases whole; rfl
  | consequent outer ih =>
      rw [ih whole, Stmt.declaration?_of_declared (outer.orderly ordered).1]
      rfl
  | alternative outer ih =>
      rw [ih whole, Stmt.declaration?_of_declared (outer.orderly ordered).2.2.1]
      rfl
  | loop outer ih =>
      rw [ih whole, Stmt.declaration?_of_declared (outer.orderly ordered).1]
      rfl

/-- What a statement declares counts in it. -/
lemma Within.frames_inside (within : Within program enclosures stmt) :
    (Enclosure.framesBefore enclosures).inside stmt = Enclosure.frames enclosures := by
  cases enclosures with
  | nil =>
      rw [Frames.inside]
      cases stmt.declaration? with
      | none => rfl
      | some name => rfl
  | cons innermost others =>
      rw [Frames.inside, ← within.declaration?_here ordered, Enclosure.framesBefore]
      cases declares : innermost.here.declaration? with
      | none => simp [Enclosure.frames, Enclosure.declared, declares]
      | some name => simp [Enclosure.frames, Enclosure.declared, declares, Frames.declare]

/-- The frames in a block behind its first statements. -/
lemma Within.foldl_block (within : Within program enclosures (.block (before ++ stmt :: after))) :
    before.foldl Frames.behind ([] :: Enclosure.framesBefore enclosures)
      = Enclosure.framesBefore (⟨none, before, stmt⟩ :: enclosures) := by
  have inside : Enclosure.framesBefore enclosures = Enclosure.frames enclosures :=
    within.frames_inside ordered
  rw [inside]
  exact Enclosure.foldl_behind none stmt enclosures
    (Stmt.orderlyAll_iff.mpr fun first listed =>
      Stmt.orderlyAll_iff.mp (within.orderly ordered) first (List.mem_append_left _ listed))

/-- The frames in the body of a function behind its first statements. -/
lemma Within.foldl_function {name : Token} {parameters : List Token}
    (within : Within program enclosures (.function name parameters (before ++ stmt :: after))) :
    before.foldl Frames.behind (((Enclosure.framesBefore enclosures).declare name).enter parameters)
      = Enclosure.framesBefore (⟨some parameters, before, stmt⟩ :: enclosures) := by
  have inside : (Enclosure.framesBefore enclosures).declare name = Enclosure.frames enclosures :=
    within.frames_inside ordered
  rw [inside, Frames.enter, Frames.foldl_declare_cons, List.append_nil]
  exact Enclosure.foldl_behind (some parameters) stmt enclosures
    (Stmt.orderlyAll_iff.mpr fun first listed =>
      Stmt.orderlyAll_iff.mp (within.orderly ordered) first (List.mem_append_left _ listed))

/-- The frames behind the consequent are those in front of it, for it is no declaration. -/
lemma Within.behind_consequent {condition : Expr} {alternative : Option Stmt}
    (within : Within program enclosures (.branch condition stmt alternative)) (frames : Frames) :
    frames.behind stmt = frames :=
  Frames.behind_eq_self (within.orderly ordered).1 frames

/-- The walk from a statement on leads along ways that go on from the way to that statement. -/
lemma Within.of_mem_walk (within : Within program enclosures stmt) :
    ∀ spot ∈ stmt.walk (Enclosure.framesBefore enclosures) (Enclosure.inFunction enclosures),
      ∃ around, Within program around spot.stmt
        ∧ spot.frames = Enclosure.framesBefore around
        ∧ spot.inFunction = Enclosure.inFunction around := by
  induction stmt using Stmt.parts_induction generalizing enclosures with
  | step stmt ih =>
  intro spot visited
  cases stmt with
  | expression | print | «variable» | return_ =>
      rw [List.mem_singleton.mp visited]
      exact ⟨enclosures, within, rfl, rfl⟩
  | block body =>
      rcases List.mem_cons.mp visited with rfl | visited
      · exact ⟨enclosures, within, rfl, rfl⟩
      · obtain ⟨before, stmt, after, rfl, met⟩ := Stmt.mem_walkAll_iff.mp visited
        rw [within.foldl_block ordered] at met
        exact ih stmt (by simp [Stmt.parts]) (.block within) spot met
  | branch condition consequent alternative =>
      rcases List.mem_cons.mp visited with rfl | visited
      · exact ⟨enclosures, within, rfl, rfl⟩
      · rw [within.behind_consequent ordered, List.mem_append] at visited
        rcases visited with visited | visited
        · exact ih consequent List.mem_cons_self (.consequent within) spot visited
        · cases alternative with
          | none => cases visited
          | some stmt => exact ih stmt (by simp [Stmt.parts]) (.alternative within) spot visited
  | loop condition body =>
      rcases List.mem_cons.mp visited with rfl | visited
      · exact ⟨enclosures, within, rfl, rfl⟩
      · exact ih body List.mem_cons_self (.loop within) spot visited
  | function name parameters body =>
      rcases List.mem_cons.mp visited with rfl | visited
      · exact ⟨enclosures, within, rfl, rfl⟩
      · obtain ⟨before, stmt, after, rfl, met⟩ := Stmt.mem_walkAll_iff.mp visited
        rw [within.foldl_function ordered] at met
        exact ih stmt (by simp [Stmt.parts]) (.function within) spot met

/-- The walk comes along every way. -/
lemma Within.walk_subset (within : Within program enclosures stmt) :
    stmt.walk (Enclosure.framesBefore enclosures) (Enclosure.inFunction enclosures)
      ⊆ Stmt.walkAll [] false program := by
  induction within with
  | top listed =>
      intro spot visited
      obtain ⟨before, after, rfl⟩ := List.append_of_mem listed
      refine Stmt.mem_walkAll_iff.mpr ⟨before, _, after, rfl, ?_⟩
      rwa [Frames.foldl_behind_nil]
  | block outer ih =>
      intro spot visited
      refine ih (List.mem_cons_of_mem _ (Stmt.mem_walkAll_iff.mpr ⟨_, _, _, rfl, ?_⟩))
      rwa [outer.foldl_block ordered]
  | function outer ih =>
      intro spot visited
      refine ih (List.mem_cons_of_mem _ (Stmt.mem_walkAll_iff.mpr ⟨_, _, _, rfl, ?_⟩))
      rwa [outer.foldl_function ordered]
  | consequent outer ih =>
      exact fun spot visited => ih (List.mem_cons_of_mem _ (List.mem_append_left _ visited))
  | alternative outer ih =>
      intro spot visited
      refine ih (List.mem_cons_of_mem _ (List.mem_append_right _ ?_))
      rwa [outer.behind_consequent ordered]
  | loop outer ih => exact fun spot visited => ih (List.mem_cons_of_mem _ visited)

/-- **A statement is met exactly on the ways to it**, with the names that are declared there. -/
theorem Stmt.mem_walk_iff {spot : Spot} :
    spot ∈ Stmt.walkAll [] false program ↔ ∃ enclosures, Within program enclosures spot.stmt
      ∧ spot.frames = Enclosure.framesBefore enclosures
      ∧ spot.inFunction = Enclosure.inFunction enclosures := by
  constructor
  · intro visited
    obtain ⟨before, stmt, after, parts, visited⟩ := Stmt.mem_walkAll_iff.mp visited
    rw [Frames.foldl_behind_nil] at visited
    have top : Within program [] stmt := .top (by simp [parts])
    exact top.of_mem_walk ordered spot visited
  · obtain ⟨frames, inFunction, stmt⟩ := spot
    rintro ⟨enclosures, within, rfl, rfl⟩
    have first : ⟨Enclosure.framesBefore enclosures, Enclosure.inFunction enclosures, stmt⟩
        ∈ stmt.walk (Enclosure.framesBefore enclosures) (Enclosure.inFunction enclosures) := by
      cases stmt <;> exact List.mem_cons_self
    exact within.walk_subset ordered first

end Ways

end LoxLang
