import Mathlib
import LoxLang.Proofs.ForLoop.Tree
import LoxLang.Proofs.Grammar.Fresh
import LoxLang.Proofs.Program.Revision

/-!
# Binding `for` loops

Read directly, a `for` loop with an initializer is one scope, in which the condition, the increment and
the body stand; without an initializer it is none.  As blocks it has one scope more around its body and
its increment, in which nothing is ever declared.  So both readings bind an occurrence to the same scope,
and the hops differ by the number of these empty scopes on the way.

* `Looped.Statement.bound` — the direct reading.
* `Layout` — how many empty scopes lie in front of each scope; `Layout.across`, the hops across them.
* `Looped.Statement.laid` — a bound tree without `for` loops, in a layout.
* **`Looped.Statement.bound_desugared`**, **`Looped.bound_program`** — binding the blocks is laying out
  the loops that were bound.
-/

namespace LoxLang

namespace Looped

/-! ## The direct reading -/

/-- The frames behind the first clause of a `for` loop. -/
def Initializer.behind (frames : Frames) : Initializer → Frames
  | .variable name _ => frames.declare name
  | .expression _ => frames

/-- The first clause with the hops of its local occurrences. -/
def Initializer.bound (frames : Frames) : Initializer → Initializer
  | .variable name value => .variable name (value.map (Expr.bound (frames.declare name)))
  | .expression value => .expression (value.bound frames)

/-- The frames inside a `for` loop: those behind its first clause, in a scope of its own. -/
def Initializer.inside (frames : Frames) : Option Initializer → Frames
  | some first => first.behind ([] :: frames)
  | none => frames

/-- The names that a declaration adds to the scope it stands in. -/
def Declaration.behind (frames : Frames) : Declaration → Frames
  | .variable name _ => frames.declare name
  | .function name _ _ => frames.declare name
  | .statement _ => frames

mutual

/-- A statement with the hops of its local occurrences.  The condition, the increment and the body of a
`for` loop all stand behind its first clause, and see nothing that the body declares. -/
def Statement.bound (frames : Frames) : Statement → Statement
  | .expression value => .expression (value.bound frames)
  | .print value => .print (value.bound frames)
  | .block body => .block (Declaration.boundAll ([] :: frames) body)
  | .branch condition consequent alternative =>
    .branch (condition.bound frames) (consequent.bound frames) (Statement.bound? frames alternative)
  | .loop condition body => .loop (condition.bound frames) (body.bound frames)
  | .forLoop initializer condition increment body =>
    .forLoop (initializer.map (Initializer.bound ([] :: frames)))
      (condition.map (Expr.bound (Initializer.inside frames initializer)))
      (increment.map (Expr.bound (Initializer.inside frames initializer)))
      (body.bound (Initializer.inside frames initializer))
  | .return_ keyword value => .return_ keyword (value.map (Expr.bound frames))

/-- A statement that may be missing with the hops of its local occurrences. -/
def Statement.bound? (frames : Frames) : Option Statement → Option Statement
  | none => none
  | some stmt => some (stmt.bound frames)

/-- A declaration with the hops of its local occurrences. -/
def Declaration.bound (frames : Frames) : Declaration → Declaration
  | .variable name initializer =>
    .variable name (initializer.map (Expr.bound (frames.declare name)))
  | .function name parameters body =>
    .function name parameters
      (Declaration.boundAll ((frames.declare name).enter parameters) body)
  | .statement stmt => .statement (stmt.bound frames)

/-- Declarations with the hops of their local occurrences. -/
def Declaration.boundAll (frames : Frames) : List Declaration → List Declaration
  | [] => []
  | first :: others => first.bound frames :: Declaration.boundAll (first.behind frames) others

end

end Looped

/-! ## Layouts -/

/-- How many empty scopes lie in front of each scope around a place, and in front of the globals, the
innermost first. -/
abbrev Layout := List Nat

namespace Layout

/-- How many links lead across `hops` scopes and the empty ones between them. -/
def across : Layout → Nat → Nat
  | [], hops => hops
  | empty :: _, 0 => empty
  | empty :: layout, hops + 1 => empty + 1 + across layout hops

/-- One more empty scope in front of the innermost one. -/
def deepen : Layout → Layout
  | [] => []
  | empty :: layout => (empty + 1) :: layout

/-- The revision of the hops in a layout. -/
def revision (layout : Layout) : Revision := ⟨id, Option.map layout.across⟩

/-- Frames with the empty ones of a layout among them. -/
def frames : Layout → Frames → Frames
  | empty :: layout, frame :: others => List.replicate empty [] ++ frame :: frames layout others
  | empty :: _, [] => List.replicate empty []
  | [], others => others

/-- The layout has a place for each frame, and one for the globals. -/
def Suits (layout : Layout) (others : Frames) : Prop := layout.length = others.length + 1

/-- The layout inside a `for` loop. -/
def inside (layout : Layout) : Option Looped.Initializer → Layout
  | some _ => 0 :: layout
  | none => layout

/-- The layout of a body with an increment behind it: both stand in a block of their own. -/
def round (layout : Layout) : Option Expr → Layout
  | some _ => layout.deepen
  | none => layout

end Layout

namespace Looped

/-- The first clause of a `for` loop in a layout. -/
def Initializer.laid (layout : Layout) (first : Initializer) : Stmt :=
  first.desugared.revised layout.revision

mutual

/-- A bound statement without `for` loops, in a layout. -/
def Statement.laid (layout : Layout) : Statement → Stmt
  | .expression value => .expression (value.revised layout.revision)
  | .print value => .print (value.revised layout.revision)
  | .block body => .block (Declaration.laidAll (0 :: layout) body)
  | .branch condition consequent alternative =>
    .branch (condition.revised layout.revision) (consequent.laid layout)
      (Statement.laid? layout alternative)
  | .loop condition body => .loop (condition.revised layout.revision) (body.laid layout)
  | .forLoop initializer condition increment body =>
    .forLoop (initializer.map (Initializer.laid (0 :: layout)))
      (condition.map (Expr.revised (layout.inside initializer).revision))
      (increment.map (Expr.revised (layout.inside initializer).deepen.revision))
      (body.laid ((layout.inside initializer).round increment))
  | .return_ keyword value => .return_ keyword (value.map (Expr.revised layout.revision))

/-- A bound statement that may be missing, in a layout. -/
def Statement.laid? (layout : Layout) : Option Statement → Option Stmt
  | none => none
  | some stmt => some (stmt.laid layout)

/-- A bound declaration without `for` loops, in a layout. -/
def Declaration.laid (layout : Layout) : Declaration → Stmt
  | .variable name initializer =>
    .variable name (initializer.map (Expr.revised layout.revision))
  | .function name parameters body =>
    .function name parameters (Declaration.laidAll (0 :: layout) body)
  | .statement stmt => stmt.laid layout

/-- Bound declarations without `for` loops, in a layout. -/
def Declaration.laidAll (layout : Layout) : List Declaration → List Stmt
  | [] => []
  | first :: others => first.laid layout :: Declaration.laidAll layout others

end

end Looped

/-! ## Frames in a layout -/

namespace Layout

variable {layout : Layout} {others : Frames}

lemma Suits.cons (suits : layout.Suits others) (frame : List String) :
    Suits (0 :: layout) (frame :: others) := congrArg Nat.succ suits

lemma Suits.deepen (suits : layout.Suits others) : layout.deepen.Suits others := by
  cases layout with
  | nil => exact suits
  | cons empty layout => exact suits

/-- No name is declared in an empty frame. -/
lemma hops?_empty (empty : Nat) (others : Frames) (name : String) :
    Frames.hops? (List.replicate empty [] ++ others) name =
      (Frames.hops? others name).map (empty + ·) := by
  induction empty with
  | zero => simp
  | succ empty ih =>
      have step : Frames.hops? ([] :: (List.replicate empty [] ++ others)) name =
          (Frames.hops? (List.replicate empty [] ++ others) name).map (· + 1) := by
        simp [Frames.hops?, List.findIdx?_cons]
      rw [List.replicate_succ, List.cons_append, step, ih, Option.map_map]
      congr 1
      funext hops
      simp only [Function.comp]
      omega

/-- **In a layout a name is found across the empty frames.** -/
theorem hops?_frames : ∀ {layout : Layout} {others : Frames}, layout.Suits others →
    ∀ name, (layout.frames others).hops? name = (others.hops? name).map layout.across
  | [], _, suits, _ => by cases suits
  | empty :: layout, [], _, name => by
      have found := hops?_empty empty [] name
      rw [List.append_nil] at found
      rw [frames, found]
      rfl
  | empty :: layout, frame :: others, suits, name => by
      have ih := @hops?_frames layout others (Nat.succ.inj suits) name
      rw [frames, hops?_empty]
      simp only [Frames.hops?, List.findIdx?_cons] at ih ⊢
      split_ifs
      · rfl
      · rw [ih]
        simp only [Option.map_map]
        congr 1
        funext hops
        simp only [Function.comp, across]
        omega

lemma frames_zero (layout : Layout) (frame : List String) (others : Frames) :
    frames (0 :: layout) (frame :: others) = frame :: layout.frames others := rfl

lemma frames_deepen (layout : Layout) (suits : layout.Suits others) :
    layout.deepen.frames others = [] :: layout.frames others := by
  cases layout with
  | nil => cases suits
  | cons empty layout =>
      cases others with
      | nil => rfl
      | cons frame others => rfl

/-- Where no empty frame is in front, a name is declared in the same frame. -/
lemma declare_frames (layout : Layout) (others : Frames) (name : Token) :
    (frames (0 :: layout) others).declare name = frames (0 :: layout) (others.declare name) := by
  cases others <;> rfl

lemma length_declare (others : Frames) (name : Token) :
    (others.declare name).length = others.length := by
  cases others <;> rfl

lemma Suits.declare (suits : layout.Suits others) (name : Token) :
    layout.Suits (others.declare name) := by
  rw [Suits, length_declare]
  exact suits

lemma foldl_declare_frames (layout : Layout) : ∀ (names : List Token) (others : Frames),
    names.foldl Frames.declare (frames (0 :: layout) others) =
      frames (0 :: layout) (names.foldl Frames.declare others)
  | [], _ => rfl
  | name :: names, others => by
      rw [List.foldl_cons, List.foldl_cons, declare_frames, foldl_declare_frames]

lemma enter_frames (layout : Layout) (others : Frames) (parameters : List Token) :
    (layout.frames others).enter parameters = frames (0 :: layout) (others.enter parameters) := by
  rw [Frames.enter, Frames.enter, ← frames_zero, foldl_declare_frames]

lemma Suits.enter (suits : layout.Suits others) (parameters : List Token) :
    Suits (0 :: layout) (others.enter parameters) := by
  have length : ∀ (names : List Token) (others : Frames),
      (names.foldl Frames.declare others).length = others.length := by
    intro names
    induction names with
    | nil => exact fun _ => rfl
    | cons name names ih => exact fun others => (ih _).trans (length_declare others name)
  rw [Suits, Frames.enter, length]
  exact congrArg Nat.succ suits

end Layout

/-! ## Binding the blocks -/

section

variable {layout : Layout} {others : Frames}

mutual

lemma Expr.bound_frames (suits : layout.Suits others) : ∀ value : Expr,
    Occurrence.Unbound value.occurrences →
    value.bound (layout.frames others) = (value.bound others).revised layout.revision
  | .literal _, _ => rfl
  | .group inner, fresh => by simp only [Expr.bound, Expr.revised, Expr.bound_frames suits inner fresh]
  | .unary _ operand, fresh => by
      simp only [Expr.bound, Expr.revised, Expr.bound_frames suits operand fresh]
      rfl
  | .binary left _ right, fresh => by
      simp only [Expr.occurrences, Occurrence.unbound_append] at fresh
      simp only [Expr.bound, Expr.revised, Expr.bound_frames suits left fresh.1,
        Expr.bound_frames suits right fresh.2]
      rfl
  | .logical left _ right, fresh => by
      simp only [Expr.occurrences, Occurrence.unbound_append] at fresh
      simp only [Expr.bound, Expr.revised, Expr.bound_frames suits left fresh.1,
        Expr.bound_frames suits right fresh.2]
      rfl
  | .variable name hops, fresh => by
      obtain rfl : hops = none := fresh ⟨false, name, hops⟩ (List.mem_singleton_self _)
      simp only [Expr.bound, Expr.revised, Option.or_none, Layout.hops?_frames suits]
      rfl
  | .assign name value hops, fresh => by
      simp only [Expr.occurrences, Occurrence.unbound_append] at fresh
      obtain rfl : hops = none := fresh.2 ⟨true, name, hops⟩ (List.mem_singleton_self _)
      simp only [Expr.bound, Expr.revised, Option.or_none, Layout.hops?_frames suits,
        Expr.bound_frames suits value fresh.1]
      rfl
  | .call callee _ arguments, fresh => by
      simp only [Expr.occurrences, Occurrence.unbound_append] at fresh
      simp only [Expr.bound, Expr.revised, Expr.bound_frames suits callee fresh.1,
        Expr.boundAll_frames suits arguments fresh.2]
      rfl

lemma Expr.boundAll_frames (suits : layout.Suits others) : ∀ values : List Expr,
    Occurrence.Unbound (Expr.occurrencesAll values) →
    Expr.boundAll (layout.frames others) values =
      Expr.revisedAll layout.revision (Expr.boundAll others values)
  | [], _ => rfl
  | value :: values, fresh => by
      simp only [Expr.occurrencesAll, Occurrence.unbound_append] at fresh
      simp only [Expr.boundAll, Expr.revisedAll, Expr.bound_frames suits value fresh.1,
        Expr.boundAll_frames suits values fresh.2]

end

lemma Expr.map_bound_frames (suits : layout.Suits others) (value : Option Expr)
    (fresh : Occurrence.Unbound (Expr.occurrences? value)) :
    value.map (Expr.bound (layout.frames others)) =
      (value.map (Expr.bound others)).map (Expr.revised layout.revision) := by
  cases value with
  | none => rfl
  | some value => exact congrArg some (value.bound_frames suits fresh)

end

namespace Looped

mutual

/-- A statement declares nothing outside of its blocks. -/
lemma Statement.declared_desugared : ∀ stmt : Statement, stmt.desugared.declared = []
  | .expression _ => rfl
  | .print _ => rfl
  | .block _ => rfl
  | .branch _ consequent alternative => by
      rw [Statement.desugared, Stmt.declared, Statement.declared_desugared consequent,
        Statement.declared?_desugared alternative]
      rfl
  | .loop _ body => Statement.declared_desugared body
  | .forLoop initializer _ increment body => by
      cases initializer with
      | some first => rfl
      | none =>
          cases increment with
          | some step => rfl
          | none => exact Statement.declared_desugared body
  | .return_ _ _ => rfl

lemma Statement.declared?_desugared : ∀ stmt : Option Statement,
    Stmt.declared? (Statement.desugared? stmt) = []
  | none => rfl
  | some stmt => Statement.declared_desugared stmt

end

lemma Statement.behind_desugared (frames : Frames) (stmt : Statement) :
    frames.behind stmt.desugared = frames := by
  rw [Frames.behind, declared_desugared]
  rfl

lemma Declaration.behind_desugared (frames : Frames) (declaration : Declaration) :
    frames.behind declaration.desugared = declaration.behind frames := by
  cases declaration with
  | statement stmt => exact stmt.behind_desugared frames
  | _ => rfl

lemma Declaration.behind_frames (layout : Layout) (others : Frames) (declaration : Declaration) :
    declaration.behind (Layout.frames (0 :: layout) others) =
      Layout.frames (0 :: layout) (declaration.behind others) := by
  cases declaration with
  | statement stmt => rfl
  | _ => exact Layout.declare_frames layout others _

lemma Declaration.suits_behind {layout : Layout} {others : Frames} (suits : layout.Suits others)
    (declaration : Declaration) : layout.Suits (declaration.behind others) := by
  cases declaration with
  | statement stmt => exact suits
  | _ => exact suits.declare _

/-! ### `for` loops -/

section

variable {layout : Layout} {others : Frames}

lemma Initializer.suits_inside (suits : layout.Suits others) (initializer : Option Initializer) :
    (layout.inside initializer).Suits (Initializer.inside others initializer) := by
  cases initializer with
  | none => exact suits
  | some first =>
      cases first with
      | expression value => exact suits.cons []
      | «variable» name value => exact (suits.cons []).declare name

/-- The first clause in a scope of its own. -/
lemma Initializer.bound_desugared (suits : layout.Suits others) (first : Initializer)
    (fresh : Occurrence.Unbound first.desugared.occurrences) :
    first.desugared.bound ([] :: layout.frames others) =
      (first.bound ([] :: others)).laid (0 :: layout) := by
  have inside := suits.cons []
  rw [← Layout.frames_zero]
  cases first with
  | expression value => exact congrArg Stmt.expression (value.bound_frames inside fresh)
  | «variable» name value =>
      have bound := Expr.map_bound_frames (inside.declare name) value fresh
      rw [← Layout.declare_frames] at bound
      exact congrArg (Stmt.variable name) bound

lemma Initializer.behind_desugared (layout : Layout) (others : Frames) (first : Initializer) :
    Frames.behind ([] :: layout.frames others) first.desugared =
      (layout.inside (some first)).frames (Initializer.inside others (some first)) := by
  cases first with
  | expression value => rfl
  | «variable» name value => exact Layout.declare_frames layout ([] :: others) name

/-- The loop behind the first clause. -/
lemma bound_rounds (suits : layout.Suits others) {condition increment : Option Expr}
    {body : Statement} (fresh : Occurrence.Unbound (Expr.occurrences? condition))
    (fresh' : Occurrence.Unbound (Expr.occurrences? increment))
    (ih : ∀ {layout : Layout} {others : Frames}, layout.Suits others →
      body.desugared.bound (layout.frames others) = (body.bound others).laid layout) :
    (Stmt.forLoop none condition increment body.desugared).bound (layout.frames others) =
      (Statement.forLoop none (condition.map (Expr.bound others)) (increment.map (Expr.bound others))
        (body.bound others)).laid layout := by
  have holds : (condition.getD (.literal (.bool true))).bound (layout.frames others) =
      ((condition.map (Expr.bound others)).map (Expr.revised layout.revision)).getD
        (.literal (.bool true)) := by
    cases condition with
    | none => rfl
    | some value => exact value.bound_frames suits fresh
  cases increment with
  | none =>
      simp only [Statement.laid, Stmt.forLoop, Stmt.bound, holds, ih suits, Option.map_none,
        Layout.round, Layout.inside]
  | some step =>
      have deeper := suits.deepen
      have frames : [] :: layout.frames others = layout.deepen.frames others :=
        (Layout.frames_deepen layout suits).symm
      have behind := body.behind_desugared (layout.deepen.frames others)
      simp only [Statement.laid, Stmt.forLoop, Stmt.bound, Stmt.boundAll, holds, frames, behind,
        ih deeper, Expr.bound_frames deeper step fresh', Option.map_none, Option.map_some,
        Layout.round, Layout.inside]

/-- What occurs in the clauses and in the body of a `for` loop. -/
lemma unbound_forLoop {initializer : Option Initializer} {condition increment : Option Expr}
    {body : Statement}
    (fresh : Occurrence.Unbound
      (Statement.forLoop initializer condition increment body).desugared.occurrences) :
    (∀ first ∈ initializer, Occurrence.Unbound first.desugared.occurrences) ∧
      Occurrence.Unbound (Expr.occurrences? condition) ∧
      Occurrence.Unbound (Expr.occurrences? increment) ∧
      Occurrence.Unbound body.desugared.occurrences := by
  cases initializer <;> cases condition <;> cases increment <;>
    simp_all [Statement.desugared, Stmt.forLoop, Stmt.occurrences, Stmt.occurrencesAll,
      Expr.occurrences?, Expr.occurrences]

end

/-! ### All statements -/

mutual

/-- **Binding the blocks is laying out the loops that were bound.** -/
theorem Statement.bound_desugared : ∀ (stmt : Statement) {layout : Layout} {others : Frames},
    layout.Suits others → Occurrence.Unbound stmt.desugared.occurrences →
    stmt.desugared.bound (layout.frames others) = (stmt.bound others).laid layout
  | .expression value, _, _, suits, fresh =>
      congrArg Stmt.expression (value.bound_frames suits fresh)
  | .print value, _, _, suits, fresh => congrArg Stmt.print (value.bound_frames suits fresh)
  | .block body, _, _, suits, fresh =>
      congrArg Stmt.block (Declaration.boundAll_desugared body (suits.cons []) fresh)
  | .branch condition consequent alternative, _, _, suits, fresh => by
      simp only [Statement.desugared, Stmt.occurrences, Occurrence.unbound_append] at fresh
      simp only [Statement.desugared, Stmt.bound, Statement.bound, Statement.laid,
        Statement.behind_desugared, Expr.bound_frames suits condition fresh.1.1,
        Statement.bound_desugared consequent suits fresh.1.2,
        Statement.bound?_desugared alternative suits fresh.2]
  | .loop condition body, _, _, suits, fresh => by
      simp only [Statement.desugared, Stmt.occurrences, Occurrence.unbound_append] at fresh
      simp only [Statement.desugared, Stmt.bound, Statement.bound, Statement.laid,
        Expr.bound_frames suits condition fresh.1, Statement.bound_desugared body suits fresh.2]
  | .forLoop initializer condition increment body, layout, others, suits, fresh => by
      obtain ⟨first, holds, step, inner⟩ := unbound_forLoop fresh
      have rounds := bound_rounds (Initializer.suits_inside suits initializer) holds step
        fun suits => Statement.bound_desugared body suits inner
      cases initializer with
      | none => exact rounds
      | some initializer =>
          have head := Initializer.bound_desugared suits initializer (first _ rfl)
          rw [← Initializer.behind_desugared] at rounds
          simp only [Statement.desugared, Stmt.forLoop, Option.map_some, Stmt.bound,
            Stmt.boundAll, head] at rounds ⊢
          rw [rounds]
          rfl
  | .return_ keyword value, _, _, suits, fresh =>
      congrArg (Stmt.return_ keyword) (Expr.map_bound_frames suits value fresh)

lemma Statement.bound?_desugared : ∀ (stmt : Option Statement) {layout : Layout} {others : Frames},
    layout.Suits others → Occurrence.Unbound (Stmt.occurrences? (Statement.desugared? stmt)) →
    Stmt.bound? (layout.frames others) (Statement.desugared? stmt) =
      Statement.laid? layout (Statement.bound? others stmt)
  | none, _, _, _, _ => rfl
  | some stmt, _, _, suits, fresh => congrArg some (Statement.bound_desugared stmt suits fresh)

lemma Declaration.bound_desugared : ∀ (declaration : Declaration) {layout : Layout}
    {others : Frames}, Layout.Suits (0 :: layout) others →
    Occurrence.Unbound declaration.desugared.occurrences →
    declaration.desugared.bound (Layout.frames (0 :: layout) others) =
      (declaration.bound others).laid (0 :: layout)
  | .variable name initializer, layout, others, suits, fresh => by
      have bound := Expr.map_bound_frames (suits.declare name) initializer fresh
      rw [← Layout.declare_frames] at bound
      exact congrArg (Stmt.variable name) bound
  | .function name parameters body, layout, others, suits, fresh => by
      have inner := Declaration.boundAll_desugared body ((suits.declare name).enter parameters) fresh
      rw [← Layout.enter_frames, ← Layout.declare_frames] at inner
      exact congrArg (Stmt.function name parameters) inner
  | .statement stmt, _, _, suits, fresh => Statement.bound_desugared stmt suits fresh

lemma Declaration.boundAll_desugared : ∀ (declarations : List Declaration) {layout : Layout}
    {others : Frames}, Layout.Suits (0 :: layout) others →
    Occurrence.Unbound (Stmt.occurrencesAll (Declaration.desugaredAll declarations)) →
    Stmt.boundAll (Layout.frames (0 :: layout) others) (Declaration.desugaredAll declarations) =
      Declaration.laidAll (0 :: layout) (Declaration.boundAll others declarations)
  | [], _, _, _, _ => rfl
  | first :: rest, layout, others, suits, fresh => by
      simp only [Declaration.desugaredAll, Stmt.occurrencesAll, Occurrence.unbound_append] at fresh
      simp only [Declaration.desugaredAll, Stmt.boundAll, Declaration.boundAll, Declaration.laidAll,
        Declaration.behind_desugared, Declaration.behind_frames,
        Declaration.bound_desugared first suits fresh.1,
        Declaration.boundAll_desugared rest (first.suits_behind suits) fresh.2]

end

/-- **A program is bound as its loops are**, where no scope is empty. -/
theorem bound_program (program : List Declaration)
    (fresh : Occurrence.Unbound (Stmt.occurrencesAll (Declaration.desugaredAll program))) :
    Program.bound (Declaration.desugaredAll program) =
      Declaration.laidAll [0] (Declaration.boundAll [] program) :=
  @Declaration.boundAll_desugared program [] [] rfl fresh

end Looped

end LoxLang
