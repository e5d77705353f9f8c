import LoxLang.Proofs.Program.Shown
import Mathlib

/-!
# The text of a program determines its tree

Two sources may print alike and still differ in their layout, in the way they write a number and in
where they have a `for` loop.  Their trees differ in none of these, except for lines: the text of a
program tells its tree, although the notation marks neither optional parts nor the end of a list, and
has names, numbers and head words in the same place.

* `Expr.Matches`, `Stmt.Matches` — trees that are equal but for lines and the tokens kept for errors.
* `Expr.node` — which node an expression is; `Outline.node` — the same, told from an outline.
* `Expr.matches_iff`, `Stmt.matches_iff` — legible trees match exactly if they have one outline.
* **`Program.shown_eq_iff`** — programs print alike exactly if their trees match.
-/

namespace LoxLang

/-! ## Trees up to lines -/

mutual

/-- Expressions that are equal up to the lines of their tokens and the parentheses kept for calls, with
constants compared as values. -/
def Expr.Matches : Expr → Expr → Prop
  | .literal value, .literal value' => value.value.equals value'.value = true
  | .group inner, .group inner' => inner.Matches inner'
  | .unary operator operand, .unary operator' operand' =>
    operator.lineless = operator'.lineless ∧ operand.Matches operand'
  | .binary left operator right, .binary left' operator' right' =>
    left.Matches left' ∧ operator.lineless = operator'.lineless ∧ right.Matches right'
  | .logical left operator right, .logical left' operator' right' =>
    left.Matches left' ∧ operator.lineless = operator'.lineless ∧ right.Matches right'
  | .variable name hops, .variable name' hops' => name.lineless = name'.lineless ∧ hops = hops'
  | .assign name value hops, .assign name' value' hops' =>
    name.lineless = name'.lineless ∧ value.Matches value' ∧ hops = hops'
  | .call callee _ arguments, .call callee' _ arguments' =>
    callee.Matches callee' ∧ Expr.MatchesAll arguments arguments'
  | _, _ => False

/-- Arguments that match, one by one. -/
def Expr.MatchesAll : List Expr → List Expr → Prop
  | [], [] => True
  | first :: others, first' :: others' => first.Matches first' ∧ Expr.MatchesAll others others'
  | _, _ => False

end

/-- Expressions that match, or neither. -/
def Expr.Matches? : Option Expr → Option Expr → Prop
  | none, none => True
  | some value, some value' => value.Matches value'
  | _, _ => False

mutual

/-- Statements that are equal up to the lines of their tokens, the parentheses kept for calls and the
words kept for returns, with constants compared as values. -/
def Stmt.Matches : Stmt → Stmt → Prop
  | .expression value, .expression value' => value.Matches value'
  | .print value, .print value' => value.Matches value'
  | .variable name initializer, .variable name' initializer' =>
    name.lineless = name'.lineless ∧ Expr.Matches? initializer initializer'
  | .block body, .block body' => Stmt.MatchesAll body body'
  | .branch condition consequent alternative, .branch condition' consequent' alternative' =>
    condition.Matches condition' ∧ consequent.Matches consequent' ∧
      Stmt.MatchesElse alternative alternative'
  | .loop condition body, .loop condition' body' =>
    condition.Matches condition' ∧ body.Matches body'
  | .function name parameters body, .function name' parameters' body' =>
    name.lineless = name'.lineless ∧
      parameters.map Token.lineless = parameters'.map Token.lineless ∧ Stmt.MatchesAll body body'
  | .return_ _ value, .return_ _ value' => Expr.Matches? value value'
  | _, _ => False

/-- Statements that match, one by one. -/
def Stmt.MatchesAll : List Stmt → List Stmt → Prop
  | [], [] => True
  | first :: others, first' :: others' => first.Matches first' ∧ Stmt.MatchesAll others others'
  | _, _ => False

/-- Other branches that match, or neither. -/
def Stmt.MatchesElse : Option Stmt → Option Stmt → Prop
  | none, none => True
  | some alternative, some alternative' => alternative.Matches alternative'
  | _, _ => False

end

/-! ## Which node an outline is of -/

/-- The nodes of expressions; constants and names have no form of their own. -/
inductive Expr.Node where
  | leaf
  | group
  | unary
  | binary
  | logical
  | assign
  | call
  deriving DecidableEq

/-- Which node an expression is. -/
def Expr.node : Expr → Expr.Node
  | .literal _ => .leaf
  | .group _ => .group
  | .unary _ _ => .unary
  | .binary _ _ _ => .binary
  | .logical _ _ _ => .logical
  | .variable _ _ => .leaf
  | .assign _ _ _ => .assign
  | .call _ _ _ => .call

namespace Outline

/-- The node that a head word stands for, with so many parts behind it. -/
def nodeOf (head : String) (count : Nat) : Expr.Node :=
  if head = "group" then .group
  else if head = "=" then .assign
  else if head = "call" then .call
  else if head = "or" ∨ head = "and" then .logical
  else if count = 1 then .unary
  else .binary

/-- The node that an outline is of. -/
def node : Outline → Expr.Node
  | word _ => .leaf
  | form (word head :: parts) => nodeOf head parts.length
  | form _ => .leaf

end Outline

/-- A lexeme of a kind with one spelling is that spelling. -/
lemma Token.Listed.lexeme_eq {token : Token} (listed : token.Listed) {spelling : String}
    (spelled : token.kind.spelling? = some spelling) : token.lexeme = spelling := by
  have entry : Lexeme token.lexeme.toList token.kind token.literal := listed
  generalize token.kind = kind at entry spelled
  generalize token.literal = literal at entry
  generalize shape : token.lexeme.toList = text at entry
  refine String.toList_inj.mp (shape.trans ?_)
  cases entry with
  | symbol _ found => rw [Option.some.inj (found.symm.trans spelled)]
  | keyword word => rw [← Option.some.inj spelled]
  | _ => cases spelled

/-- Whatever kinds operators are of, their words tell the node if the spellings of these kinds do. -/
lemma Token.Listed.nodeOf_eq {operator : Token} {kinds : List Kind} {count : Nat} {node : Expr.Node}
    (listed : operator.Listed) (mem : operator.kind ∈ kinds)
    (table : ∀ kind ∈ kinds, kind.spelling?.map (Outline.nodeOf · count) = some node) :
    Outline.nodeOf operator.lexeme count = node := by
  obtain ⟨spelling, spelled, told⟩ := Option.map_eq_some_iff.mp (table _ mem)
  rw [listed.lexeme_eq spelled, told]

/-- The kinds of binary operators. -/
def Kind.tight : List Kind :=
  [.bangEqual, .equalEqual, .greater, .greaterEqual, .less, .lessEqual, .minus, .plus, .slash, .star]

lemma Kind.mem_tight {kind : Kind} (bound : 3 ≤ kind.precedence) : kind ∈ Kind.tight := by
  revert bound
  cases kind with
  | keyword word => cases word <;> decide
  | _ => decide

/-- **The outline of a legible expression tells which node it is.** -/
lemma Expr.node_outline {value : Expr} (legible : value.Legible) : value.outline.node = value.node := by
  cases value with
  | unary operator _ =>
    obtain ⟨sign, listed, -⟩ := legible
    change Outline.nodeOf operator.lexeme 1 = .unary
    exact listed.nodeOf_eq sign (by decide)
  | binary _ operator _ =>
    obtain ⟨tight, listed, -⟩ := legible
    change Outline.nodeOf operator.lexeme 2 = .binary
    exact listed.nodeOf_eq (Kind.mem_tight tight) (by decide)
  | logical _ operator _ =>
    obtain ⟨word, listed, -⟩ := legible
    change Outline.nodeOf operator.lexeme 2 = .logical
    exact listed.nodeOf_eq word (by decide)
  | _ => rfl

/-- Different nodes have different outlines. -/
lemma Expr.outline_eq_iff_false {value other : Expr} (legible : value.Legible)
    (legible' : other.Legible) (apart : value.node ≠ other.node) :
    value.outline = other.outline ↔ False :=
  iff_false_intro fun same => apart (by
    rw [← node_outline legible, ← node_outline legible', same])

/-! ## Outlines of matching trees -/

/-- Listed tokens have the same text exactly if they differ in their lines only. -/
lemma Token.Listed.lineless_iff {token other : Token} (listed : token.Listed) (listed' : other.Listed) :
    token.lexeme = other.lexeme ↔ token.lineless = other.lineless :=
  ⟨listed.lineless_eq listed', fun same => congrArg (·.2.1) same⟩

lemma Token.IsNameToken.outline_iff {name other : Token} (named : name.IsNameToken)
    (named' : other.IsNameToken) : name.outline = other.outline ↔ name.lineless = other.lineless := by
  rw [← named.2.lineless_iff named'.2, Token.outline, Token.outline, Outline.word.injEq]

lemma Token.outlines_iff : ∀ {names others : List Token}, (∀ name ∈ names, name.IsNameToken) →
    (∀ name ∈ others, name.IsNameToken) →
    (names.map Token.outline = others.map Token.outline ↔
      names.map Token.lineless = others.map Token.lineless)
  | [], [], _, _ => by simp
  | [], _ :: _, _, _ => by simp
  | _ :: _, [], _, _ => by simp
  | name :: names, other :: others, named, named' => by
      have first := (named name List.mem_cons_self).outline_iff (named' other List.mem_cons_self)
      have behind := Token.outlines_iff (fun name mem => named name (List.mem_cons_of_mem _ mem))
        fun name mem => named' name (List.mem_cons_of_mem _ mem)
      simp only [List.map_cons, List.cons.injEq, first, behind]

mutual

/-- **Legible expressions have one outline exactly if they match.** -/
theorem Expr.matches_iff : (value other : Expr) → value.Legible → other.Legible →
    (value.outline = other.outline ↔ value.Matches other)
  | .literal value, other, plain, legible' => by
      cases other with
      | literal value' =>
        have plain' : value'.Plain := legible'
        rw [Matches, Constant.equals_iff plain plain', outline, outline, Outline.word.injEq]
        exact ⟨Constant.eq_of_shown plain plain', congrArg _⟩
      | «variable» name _ =>
        obtain ⟨⟨kind, listed⟩, -⟩ := legible'
        rw [outline, outline, Outline.word.injEq]
        exact iff_false_intro (Constant.shown_ne_name plain kind listed)
      | _ => exact outline_eq_iff_false plain legible' nofun
  | .group inner, other, legible, legible' => by
      cases other with
      | group inner' =>
        have inside := inner.matches_iff inner' legible legible'
        simp only [outline, Matches, Outline.form.injEq, List.cons.injEq, inside, and_true, true_and]
      | _ => exact outline_eq_iff_false legible legible' nofun
  | .unary operator operand, other, legible, legible' => by
      cases other with
      | unary operator' operand' =>
        have sign := legible.2.1.lineless_iff legible'.2.1
        have inside := operand.matches_iff operand' legible.2.2 legible'.2.2
        simp only [outline, Matches, Outline.form.injEq, Outline.word.injEq, List.cons.injEq, sign,
          inside, and_true]
      | _ => exact outline_eq_iff_false legible legible' nofun
  | .binary left operator right, other, legible, legible' => by
      cases other with
      | binary left' operator' right' =>
        have sign := legible.2.1.lineless_iff legible'.2.1
        have first := left.matches_iff left' legible.2.2.1 legible'.2.2.1
        have second := right.matches_iff right' legible.2.2.2 legible'.2.2.2
        simp only [outline, Matches, Outline.form.injEq, Outline.word.injEq, List.cons.injEq, sign,
          first, second, and_true]
        exact and_left_comm
      | _ => exact outline_eq_iff_false legible legible' nofun
  | .logical left operator right, other, legible, legible' => by
      cases other with
      | logical left' operator' right' =>
        have sign := legible.2.1.lineless_iff legible'.2.1
        have first := left.matches_iff left' legible.2.2.1 legible'.2.2.1
        have second := right.matches_iff right' legible.2.2.2 legible'.2.2.2
        simp only [outline, Matches, Outline.form.injEq, Outline.word.injEq, List.cons.injEq, sign,
          first, second, and_true]
        exact and_left_comm
      | _ => exact outline_eq_iff_false legible legible' nofun
  | .variable name hops, other, legible, legible' => by
      cases other with
      | literal value =>
        obtain ⟨⟨kind, listed⟩, -⟩ := legible
        rw [outline, outline, Outline.word.injEq]
        exact iff_false_intro fun same => Constant.shown_ne_name legible' kind listed same.symm
      | «variable» name' hops' =>
        have names := legible.1.2.lineless_iff legible'.1.2
        simp only [outline, Matches, Outline.word.injEq, names, legible.2, legible'.2, and_true]
      | _ => exact outline_eq_iff_false legible legible' nofun
  | .assign name value hops, other, legible, legible' => by
      cases other with
      | assign name' value' hops' =>
        have names := legible.1.2.lineless_iff legible'.1.2
        have inside := value.matches_iff value' legible.2.2 legible'.2.2
        simp only [outline, Matches, Outline.form.injEq, Outline.word.injEq, List.cons.injEq, names,
          inside, legible.2.1, legible'.2.1, and_true, true_and]
      | _ => exact outline_eq_iff_false legible legible' nofun
  | .call callee paren arguments, other, legible, legible' => by
      cases other with
      | call callee' paren' arguments' =>
        have first := callee.matches_iff callee' legible.1 legible'.1
        have all := Expr.matchesAll_iff arguments arguments' legible.2 legible'.2
        simp only [outline, Matches, Outline.form.injEq, List.cons.injEq, first, all, true_and]
      | _ => exact outline_eq_iff_false legible legible' nofun

/-- Legible arguments have one list of outlines exactly if they match. -/
theorem Expr.matchesAll_iff : (values others : List Expr) → Expr.LegibleAll values →
    Expr.LegibleAll others →
    (Expr.outlineAll values = Expr.outlineAll others ↔ Expr.MatchesAll values others)
  | [], [], _, _ => by simp only [outlineAll, MatchesAll]
  | [], _ :: _, _, _ => by simp only [outlineAll, MatchesAll, reduceCtorEq]
  | _ :: _, [], _, _ => by simp only [outlineAll, MatchesAll, reduceCtorEq]
  | value :: values, other :: others, ⟨legible, all⟩, ⟨legible', all'⟩ => by
      simp only [outlineAll, MatchesAll, List.cons.injEq, value.matches_iff other legible legible',
        Expr.matchesAll_iff values others all all']

end

lemma Expr.matches?_iff : (value other : Option Expr) → Expr.Legible? value → Expr.Legible? other →
    (Expr.outline? value = Expr.outline? other ↔ Expr.Matches? value other)
  | none, none, _, _ => by simp only [outline?, Matches?]
  | none, some _, _, _ => by simp only [outline?, Matches?, reduceCtorEq]
  | some _, none, _, _ => by simp only [outline?, Matches?, reduceCtorEq]
  | some value, some other, legible, legible' => by
      simp only [outline?, Matches?, List.cons.injEq, and_true,
        value.matches_iff other legible legible']

mutual

/-- **Legible statements have one outline exactly if they match.** -/
theorem Stmt.matches_iff : (stmt other : Stmt) → stmt.Legible → other.Legible →
    (stmt.outline = other.outline ↔ stmt.Matches other)
  | .expression value, other, legible, legible' => by
      cases other with
      | expression value' =>
        have inside := value.matches_iff value' legible legible'
        simp only [outline, Matches, Outline.form.injEq, List.cons.injEq, inside, and_true, true_and]
      | _ => simp [outline, Matches]
  | .print value, other, legible, legible' => by
      cases other with
      | print value' =>
        have inside := value.matches_iff value' legible legible'
        simp only [outline, Matches, Outline.form.injEq, List.cons.injEq, inside, and_true, true_and]
      | _ => simp [outline, Matches]
  | .variable name initializer, other, legible, legible' => by
      cases other with
      | «variable» name' initializer' =>
        have names := legible.1.outline_iff legible'.1
        have inside := Expr.matches?_iff initializer initializer' legible.2 legible'.2
        simp only [outline, Matches, Outline.form.injEq, List.cons.injEq, names, inside, true_and]
      | _ => simp [outline, Matches]
  | .block body, other, legible, legible' => by
      cases other with
      | block body' =>
        have inside := Stmt.matchesAll_iff body body' legible legible'
        simp only [outline, Matches, Outline.form.injEq, List.cons.injEq, inside, true_and]
      | _ => simp [outline, Matches]
  | .branch condition consequent alternative, other, legible, legible' => by
      cases other with
      | branch condition' consequent' alternative' =>
        have tested := condition.matches_iff condition' legible.1 legible'.1
        have first := consequent.matches_iff consequent' legible.2.1 legible'.2.1
        have second := Stmt.matchesElse_iff alternative alternative' legible.2.2 legible'.2.2
        simp only [outline, Matches, Outline.form.injEq, List.cons.injEq, tested, first, second,
          true_and]
      | _ => simp [outline, Matches]
  | .loop condition body, other, legible, legible' => by
      cases other with
      | loop condition' body' =>
        have tested := condition.matches_iff condition' legible.1 legible'.1
        have inside := body.matches_iff body' legible.2 legible'.2
        simp only [outline, Matches, Outline.form.injEq, List.cons.injEq, tested, inside, and_true,
          true_and]
      | _ => simp [outline, Matches]
  | .function name parameters body, other, legible, legible' => by
      cases other with
      | function name' parameters' body' =>
        have names := legible.1.outline_iff legible'.1
        have lists := Token.outlines_iff legible.2.1 legible'.2.1
        have inside := Stmt.matchesAll_iff body body' legible.2.2 legible'.2.2
        simp only [outline, Matches, Outline.form.injEq, List.cons.injEq, names, lists, inside,
          true_and]
      | _ => simp [outline, Matches]
  | .return_ _ value, other, legible, legible' => by
      cases other with
      | return_ _ value' =>
        have inside := Expr.matches?_iff value value' legible legible'
        simp only [outline, Matches, Outline.form.injEq, List.cons.injEq, inside, true_and]
      | _ => simp [outline, Matches]

/-- Legible statements have one list of outlines exactly if they match. -/
theorem Stmt.matchesAll_iff : (stmts others : List Stmt) → Stmt.LegibleAll stmts →
    Stmt.LegibleAll others →
    (Stmt.outlineAll stmts = Stmt.outlineAll others ↔ Stmt.MatchesAll stmts others)
  | [], [], _, _ => by simp only [outlineAll, MatchesAll]
  | [], _ :: _, _, _ => by simp only [outlineAll, MatchesAll, reduceCtorEq]
  | _ :: _, [], _, _ => by simp only [outlineAll, MatchesAll, reduceCtorEq]
  | stmt :: stmts, other :: others, ⟨legible, all⟩, ⟨legible', all'⟩ => by
      simp only [outlineAll, MatchesAll, List.cons.injEq, stmt.matches_iff other legible legible',
        Stmt.matchesAll_iff stmts others all all']

/-- Legible branches have one outline exactly if they match. -/
theorem Stmt.matchesElse_iff : (stmt other : Option Stmt) → Stmt.LegibleElse stmt →
    Stmt.LegibleElse other →
    (Stmt.outlineElse stmt = Stmt.outlineElse other ↔ Stmt.MatchesElse stmt other)
  | none, none, _, _ => by simp only [outlineElse, MatchesElse]
  | none, some _, _, _ => by simp only [outlineElse, MatchesElse, reduceCtorEq]
  | some _, none, _, _ => by simp only [outlineElse, MatchesElse, reduceCtorEq]
  | some stmt, some other, legible, legible' => by
      simp only [outlineElse, MatchesElse, List.cons.injEq, and_true,
        stmt.matches_iff other legible legible']

end

/-! ## Programs -/

/-- Legible programs print alike exactly if they have the same outlines. -/
lemma Stmt.map_shown_eq_iff : ∀ {stmts others : List Stmt}, Stmt.LegibleAll stmts →
    Stmt.LegibleAll others → (stmts.map Stmt.shown = others.map Stmt.shown ↔
      Stmt.outlineAll stmts = Stmt.outlineAll others)
  | [], [], _, _ => by simp [outlineAll]
  | [], _ :: _, _, _ => by simp [outlineAll]
  | _ :: _, [], _, _ => by simp [outlineAll]
  | stmt :: stmts, other :: others, ⟨legible, all⟩, ⟨legible', all'⟩ => by
      simp only [List.map_cons, outlineAll, List.cons.injEq, outline_eq_iff legible legible',
        map_shown_eq_iff all all']

namespace Program

/-- **The text of a program determines its tree.**  Two sources that are read without problems and have
no quoted texts and no infinite numbers print the same list of statements exactly if their trees are
equal up to the lines of tokens, the parentheses kept for calls and the words kept for returns, with
numbers compared as the language compares them. -/
theorem shown_eq_iff {source other : String} {tree tree' : List Stmt}
    (accepted : Program.read source = (tree, [])) (accepted' : Program.read other = (tree', []))
    (plain : HasPlainLiterals source) (plain' : HasPlainLiterals other) :
    tree.map Stmt.shown = tree'.map Stmt.shown ↔ Stmt.MatchesAll tree tree' := by
  have legible := legible_read accepted plain
  have legible' := legible_read accepted' plain'
  rw [Stmt.map_shown_eq_iff legible legible', Stmt.matchesAll_iff tree tree' legible legible']

/-- A loop without a condition in one line, and a loop over two lines with the same number in another
spelling: they print alike, so their trees match. -/
theorem shown_eq_iff_layout :
    Stmt.MatchesAll (read "for (;;) f(1, -x);").1 (read "while (true)\n  f(1.0, -x);").1 :=
  (shown_eq_iff (Prod.ext rfl (by decide +kernel)) (Prod.ext rfl (by decide +kernel))
    (by decide +kernel) (by decide +kernel)).mp (by decide +kernel)

end Program

end LoxLang
