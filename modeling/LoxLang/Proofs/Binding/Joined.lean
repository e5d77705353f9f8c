import Mathlib
import LoxLang.Compilation
import LoxLang.Proofs.Grammar.Joined
import LoxLang.Proofs.Token.Joined

/-!
# Compiling joined sources

Outside of all blocks no name is kept, so the statements of a program are bound and checked one by one,
whatever stands in front of them.  Binding looks at no line either.  Two sources that are accepted are
therefore accepted as one, and the program is the first one with the second one behind it, whose tokens
stand further down.

* `Stmt.bound_revised` — binding a tree on other lines.
* `Program.bound_joined`, `Program.mistakes_joined` — the statements of two programs in a row.
* `Program.read_joined`, `Program.read_below` — the tree of two sources in a row, and of a source below
  empty lines.
* **`Program.Accepts.joined`** — two sources that nothing is wrong with.
-/

namespace LoxLang

/-! ## Binding on other lines -/

section

variable {r : Revision}

mutual

lemma Expr.bound_revised (lines : r.hops = id) (frames : Frames) : ∀ value : Expr,
    (value.revised r).bound frames = (value.bound frames).revised r
  | .literal _ => rfl
  | .group inner => by simp only [Expr.revised, Expr.bound, Expr.bound_revised lines frames inner]
  | .unary _ operand => by simp only [Expr.revised, Expr.bound, Expr.bound_revised lines frames operand]
  | .binary left _ right => by
      simp only [Expr.revised, Expr.bound, Expr.bound_revised lines frames left,
        Expr.bound_revised lines frames right]
  | .logical left _ right => by
      simp only [Expr.revised, Expr.bound, Expr.bound_revised lines frames left,
        Expr.bound_revised lines frames right]
  | .variable _ _ => by simp only [Expr.revised, Expr.bound, lines, id, Token.lexeme_revised]
  | .assign _ value _ => by
      simp only [Expr.revised, Expr.bound, Expr.bound_revised lines frames value, lines, id,
        Token.lexeme_revised]
  | .call callee _ arguments => by
      simp only [Expr.revised, Expr.bound, Expr.bound_revised lines frames callee,
        Expr.boundAll_revised lines frames arguments]

lemma Expr.boundAll_revised (lines : r.hops = id) (frames : Frames) : ∀ values : List Expr,
    Expr.boundAll frames (Expr.revisedAll r values) =
      Expr.revisedAll r (Expr.boundAll frames values)
  | [] => rfl
  | value :: others => by
      simp only [Expr.revisedAll, Expr.boundAll, Expr.bound_revised lines frames value,
        Expr.boundAll_revised lines frames others]

end

lemma Expr.map_bound_revised (lines : r.hops = id) (frames : Frames) (value : Option Expr) :
    (value.map (Expr.revised r)).map (Expr.bound frames) =
      (value.map (Expr.bound frames)).map (Expr.revised r) := by
  cases value with
  | none => rfl
  | some value => exact congrArg some (value.bound_revised lines frames)

mutual

lemma Stmt.bound_revised (lines : r.hops = id) : ∀ (stmt : Stmt) (frames : Frames),
    (stmt.revised r).bound frames = (stmt.bound frames).revised r
  | .expression value, frames => congrArg Stmt.expression (value.bound_revised lines frames)
  | .print value, frames => congrArg Stmt.print (value.bound_revised lines frames)
  | .variable name initializer, frames =>
      congrArg (Stmt.variable (name.revised r)) (Expr.map_bound_revised lines _ initializer)
  | .block body, frames => congrArg Stmt.block (Stmt.boundAll_revised lines body ([] :: frames))
  | .branch condition consequent alternative, frames => by
      simp only [Stmt.revised, Stmt.bound, Expr.bound_revised lines, Frames.behind_revised,
        Stmt.bound_revised lines consequent, Stmt.bound?_revised lines alternative]
  | .loop condition body, frames => by
      simp only [Stmt.revised, Stmt.bound, Expr.bound_revised lines, Stmt.bound_revised lines body]
  | .function name parameters body, frames => by
      simp only [Stmt.revised, Stmt.bound, Frames.declare_revised, Frames.enter_revised,
        Stmt.boundAll_revised lines body]
  | .return_ keyword value, frames =>
      congrArg (Stmt.return_ (keyword.revised r)) (Expr.map_bound_revised lines frames value)

lemma Stmt.boundAll_revised (lines : r.hops = id) : ∀ (stmts : List Stmt) (frames : Frames),
    Stmt.boundAll frames (Stmt.revisedAll r stmts) =
      Stmt.revisedAll r (Stmt.boundAll frames stmts)
  | [], _ => rfl
  | stmt :: others, frames => by
      simp only [Stmt.revisedAll, Stmt.boundAll, Frames.behind_revised, Stmt.bound_revised lines stmt,
        Stmt.boundAll_revised lines others]

lemma Stmt.bound?_revised (lines : r.hops = id) : ∀ (stmt : Option Stmt) (frames : Frames),
    Stmt.bound? frames (Stmt.revised? r stmt) = Stmt.revised? r (Stmt.bound? frames stmt)
  | none, _ => rfl
  | some stmt, frames => congrArg some (Stmt.bound_revised lines stmt frames)

end

end

/-! ## One program behind another -/

/-- No global name is kept. -/
lemma Frames.behind_globals (stmt : Stmt) : Frames.behind [] stmt = [] := by
  rw [behind]
  induction stmt.declared with
  | nil => rfl
  | cons name others ih => exact ih

namespace Program

lemma bound_joined (stmts others : List Stmt) :
    bound (stmts ++ others) = bound stmts ++ bound others := by
  simp only [bound]
  induction stmts with
  | nil => rfl
  | cons stmt stmts ih =>
      simp only [List.cons_append, Stmt.boundAll, Frames.behind_globals, ih]

lemma mistakes_joined (stmts others : List Stmt) :
    mistakes (stmts ++ others) = mistakes stmts ++ mistakes others := by
  simp only [mistakes]
  induction stmts with
  | nil => rfl
  | cons stmt stmts ih =>
      simp only [List.cons_append, Stmt.mistakesAll, Frames.behind_globals, ih, List.append_assoc]

/-! ## Sources -/

lemma tokens_revised (r : Revision) (items : List Item) :
    Scan.tokens (items.map (Item.revised r)) = (Scan.tokens items).map (Token.revised r) := by
  induction items with
  | nil => rfl
  | cons item items ih =>
      cases item with
      | ok token => exact congrArg (token.revised r :: ·) ih
      | error fault => exact ih

lemma faults_revised (r : Revision) {items : List Item} (sound : Scan.faults items = []) :
    Scan.faults (items.map (Item.revised r)) = [] := by
  rw [Scan.faults, List.filterMap_eq_nil_iff] at sound ⊢
  intro moved mem
  obtain ⟨item, inside, rfl⟩ := List.mem_map.mp mem
  cases item with
  | ok token => rfl
  | error fault => cases sound _ inside

/-- A source read without problems has no lexical errors, and its tokens are read without reports. -/
lemma read_eq_iff {source : String} {stmts : List Stmt} : read source = (stmts, []) ↔
    Scan.faults (Scan.items source) = [] ∧
      parse (Scan.tokens (Scan.items source)) = ⟨stmts, []⟩ := by
  simp only [read, told]
  rcases parse (Scan.tokens (Scan.items source)) with ⟨tree, reports⟩
  simp only [Prod.mk.injEq, List.append_eq_nil_iff, List.map_eq_nil_iff, Parsed.mk.injEq]
  tauto

/-- **Two sources read as one.** -/
theorem read_joined {first second : String} {stmts others : List Stmt}
    (front : read first = (stmts, [])) (behind : read second = (others, [])) :
    read (first ++ "\n" ++ second) =
      (stmts ++ Stmt.revisedAll (.down (Scan.lines first)) others, []) := by
  rw [read_eq_iff] at front behind ⊢
  obtain ⟨tokens, inner, whole, joined⟩ := Scan.items_joined front.1 second
  have first_ := front.2
  rw [whole, (Scan.tokens_append_map tokens _).1] at first_
  rw [joined, (Scan.tokens_append_map tokens _).1, (Scan.tokens_append_map tokens _).2, tokens_revised]
  exact ⟨faults_revised _ behind.1, parse_joined rfl inner rfl first_ behind.2⟩

/-- A source below empty lines. -/
lemma read_below {source : String} {stmts : List Stmt} (found : read source = (stmts, []))
    (lines : Nat) : read (String.ofList (List.replicate lines '\n') ++ source) =
      (Stmt.revisedAll (.down lines) stmts, []) := by
  rw [read_eq_iff] at found ⊢
  rw [Scan.items_below, tokens_revised]
  exact ⟨faults_revised _ found.1, parse_revised rfl found.2⟩

/-! ## Accepted sources -/

/-- Nothing is wrong with a source, and these are its statements. -/
structure Accepts (source : String) (tree : List Stmt) : Prop where
  read : Program.read source = (tree, [])
  mistakes : Program.mistakes tree = []

namespace Accepts

variable {first second source : String} {stmts others tree : List Stmt}

lemma ofSource (accepts : Accepts source tree) :
    Compilation.ofSource source = ⟨tree, some (Program.bound tree), []⟩ := by
  rw [Compilation.ofSource, accepts.read]
  simp only [accepts.mistakes, List.map_nil]

/-- **Two accepted sources are accepted as one**: the statements of the second stand behind those of the
first, as many lines lower as the first takes up. -/
theorem joined (front : Accepts first stmts) (behind : Accepts second others) :
    Accepts (first ++ "\n" ++ second)
      (stmts ++ Stmt.revisedAll (.down (Scan.lines first)) others) := by
  refine ⟨read_joined front.read behind.read, ?_⟩
  have lower := Stmt.mistakesAll_revised (.down (Scan.lines first)) others [] false
  rw [mistakes_joined, front.mistakes, Program.mistakes, lower, ← Program.mistakes, behind.mistakes]
  rfl

lemma below (accepts : Accepts source tree) (lines : Nat) :
    Accepts (String.ofList (List.replicate lines '\n') ++ source)
      (Stmt.revisedAll (.down lines) tree) := by
  refine ⟨read_below accepts.read lines, ?_⟩
  have lower := Stmt.mistakesAll_revised (.down lines) tree [] false
  rw [Program.mistakes, lower, ← Program.mistakes, accepts.mistakes]
  rfl

end Accepts

lemma exists_accepts {source : String} (sound : (Compilation.ofSource source).problems = []) :
    ∃ tree, Accepts source tree := by
  rw [Compilation.ofSource] at sound
  rcases found : read source with ⟨tree, _ | ⟨problem, problems⟩⟩
  · rw [found] at sound
    exact ⟨tree, found, List.map_eq_nil_iff.mp sound⟩
  · rw [found] at sound
    cases sound

/-- Statements on other lines, bound. -/
lemma bound_revised {r : Revision} (lines : r.hops = id) (tree : List Stmt) :
    bound (Stmt.revisedAll r tree) = Stmt.revisedAll r (bound tree) :=
  Stmt.boundAll_revised lines tree []

end Program

end LoxLang
