import Mathlib
import LoxLang.Proofs.Binding.Numbering
import LoxLang.Proofs.Grammar.Counted
import LoxLang.Proofs.Grammar.Joined

/-!
# Occurrences carry numbers of their own

The parser that numbers what it makes gives the tree that the parser gives, with the same errors, and
every occurrence in it carries a number that no other occurrence carries and that the counter had not given
out before.  A part that is dropped takes its numbers with it; a part that is moved to another place in the
tree, such as the last clause of a loop, keeps those that it took where it stood.

* `Counted.Counts` — a parser that numbers against one that does not; one lemma for each way to put
  parsers together.
* **`Counted.countsExpressions`**, **`Counted.countsStatements`** — the rules of the grammar.
* **`Counted.parse_numbers`**, **`Counted.parseExpression_numbers`** — whole inputs.
-/

namespace LoxLang

open Revision (unnumbered)

namespace Numbers

variable {low low' high high' : Nat} {occurrences other : List Occurrence}

/-- Numbers out of a range are out of a wider one. -/
lemma mono (numbers : Numbers low high occurrences) (below : low' ≤ low) (above : high ≤ high') :
    Numbers low' high' occurrences :=
  ⟨(below.trans numbers.le).trans above, numbers.distinct, fun occurrence mem => by
    obtain ⟨number, carried, lower, upper⟩ := numbers.within occurrence mem
    exact ⟨number, carried, below.trans lower, upper.trans_le above⟩⟩

/-- The order of the occurrences does not matter. -/
lemma perm (numbers : Numbers low high occurrences) (same : occurrences.Perm other) :
    Numbers low high other :=
  ⟨numbers.le, (same.map _).nodup_iff.mp numbers.distinct, fun occurrence mem =>
    numbers.within occurrence (same.mem_iff.mpr mem)⟩

/-- A counter that starts over gives the same numbers until it does. -/
lemma distinct_mod (numbers : Numbers low high occurrences) {size : Nat} (room : high ≤ size) :
    (occurrences.map fun occurrence => occurrence.hops.map (· % size)).Nodup := by
  have same : occurrences.map (fun occurrence => occurrence.hops.map (· % size)) =
      occurrences.map Occurrence.hops := by
    refine List.map_congr_left fun occurrence mem => ?_
    obtain ⟨number, carried, -, below⟩ := numbers.within occurrence mem
    rw [carried, Option.map_some, Nat.mod_eq_of_lt (below.trans_le room)]
  rw [same]
  exact numbers.distinct

end Numbers

namespace Counted

variable {α β γ δ : Type} {low middle : Nat}

/-- What a parser with a counter came to, against a step of a parser without: the same, but for what
`erased` takes away, and `reaches` holds of the value and of the counter. -/
inductive Follows (low : Nat) (erased : α → β) (reaches : α → Nat → Prop) :
    Step α × Nat → Step β → Prop
  | value {high : Nat} {reports : List SyntaxReport} {rest : List Token} {value : α}
      (forward : low ≤ high) (reached : reaches value high) :
      Follows low erased reaches (⟨reports, rest, .ok value⟩, high) ⟨reports, rest, .ok (erased value)⟩
  | error {high : Nat} {reports : List SyntaxReport} {rest : List Token} {error : SyntaxError}
      (forward : low ≤ high) :
      Follows low erased reaches (⟨reports, rest, .error error⟩, high) ⟨reports, rest, .error error⟩

/-- **From one count on, a parser that numbers does what a parser does.** -/
def Counts (low : Nat) (counted : Counted α) (parser : Parser β) (erased : α → β)
    (reaches : α → Nat → Prop) : Prop :=
  ∀ tokens, Follows low erased reaches (counted low tokens) (parser tokens)

/-- The occurrences of a value carry numbers from `low` on. -/
def Carries (low : Nat) (occurrences : α → List Occurrence) (value : α) (high : Nat) : Prop :=
  Numbers low high (occurrences value)

namespace Counts

variable {erased : α → β} {erased' : γ → δ} {reaches : α → Nat → Prop} {goal : γ → Nat → Prop}

lemma pure {value : α} (reached : reaches value low) :
    Counts low (Pure.pure value) (Pure.pure (erased value)) erased reaches :=
  fun _ => .value le_rfl reached

lemma pure_of {value : α} {result : β} (same : erased value = result)
    (reached : reaches value low) : Counts low (Pure.pure value) (Pure.pure result) erased reaches :=
  same ▸ .pure reached

lemma bind {first : Counted α} {parser : Parser β} {second : α → Counted γ} {next : β → Parser δ}
    (before : Counts low first parser erased reaches)
    (after : ∀ value middle, reaches value middle → low ≤ middle →
      Counts middle (second value) (next (erased value)) erased' goal) :
    Counts low (first >>= second) (parser >>= next) erased' goal := by
  intro tokens
  have whole := before tokens
  show Follows low erased' goal (Counted.bind first second low tokens) (Parser.bind parser next tokens)
  unfold Counted.bind Parser.bind
  generalize first low tokens = run at whole ⊢
  generalize parser tokens = step at whole ⊢
  cases whole with
  | @value high reports rest value forward reached =>
      have last := after value high reached forward rest
      dsimp only
      generalize second value high rest = run at last ⊢
      generalize next (erased value) rest = step at last ⊢
      cases last with
      | value forward' reached' => exact .value (forward.trans forward') reached'
      | error forward' => exact .error (forward.trans forward')
  | error forward => exact .error forward

lemma lift (parser : Parser α) : Counts low (lift parser) parser id fun _ high => high = low := by
  intro tokens
  unfold Counted.lift
  generalize parser tokens = step
  obtain ⟨reports, rest, error | value⟩ := step
  · exact .error le_rfl
  · exact .value le_rfl rfl

/-- What makes no nodes, before the rest. -/
lemma behind {parser : Parser α} {second : α → Counted γ} {next : α → Parser δ}
    (after : ∀ value, Counts low (second value) (next value) erased' goal) :
    Counts low (Counted.lift parser >>= second) (parser >>= next) erased' goal :=
  (lift parser).bind fun value _ same _ => same ▸ after value

/-- Both cases of what may be there. -/
lemma branch {parser : Parser (Option α)} {second : Option α → Counted γ}
    {next : Option α → Parser δ} (absent : Counts low (second none) (next none) erased' goal)
    (present : ∀ value, Counts low (second (some value)) (next (some value)) erased' goal) :
    Counts low (Counted.lift parser >>= second) (parser >>= next) erased' goal :=
  behind fun found => by
    cases found with
    | none => exact absent
    | some value => exact present value

/-- Something may be told of first. -/
lemma guarded {c : Prop} [Decidable c] {first : Counted Unit} {parser : Parser Unit}
    {second : Counted γ} {next : Parser δ} (told : Counts low first parser id fun _ high => high = low)
    (after : Counts low second next erased' goal) :
    Counts low (if c then first >>= fun _ => second else second)
      (if c then parser >>= fun _ => next else next) erased' goal := by
  split
  · exact told.bind fun _ _ same _ => same ▸ after
  · exact after

lemma raise (error : SyntaxError) :
    Counts low (Counted.lift (Parser.raise error)) (Parser.raise error) erased reaches :=
  fun _ => .error le_rfl

/-- A new node has the next number. -/
lemma node {make make' : Option Nat → Expr} {reaches : Expr → Nat → Prop}
    (same : (make (some low)).revised unnumbered = make' none)
    (reached : reaches (make (some low)) (low + 1)) :
    Counts low (reader.node make) (Parser.reader.node make') (Expr.revised unnumbered) reaches := by
  intro tokens
  show Follows low _ reaches _ (⟨[], tokens, .ok (make' none)⟩ : Step Expr)
  rw [← same]
  exact .value (Nat.le_succ low) reached

/-- The parser that does not number has its nodes at once. -/
lemma behind_node {make : Nat → Expr} {second : Expr → Counted γ} {next : Parser δ}
    (after : Counts (low + 1) (second (make low)) next erased' goal) :
    Counts low (Counted.node make >>= second) next erased' goal := by
  intro tokens
  have last := after tokens
  show Follows low erased' goal (Counted.bind (Counted.node make) second low tokens) _
  unfold Counted.bind Counted.node
  dsimp only
  generalize second (make low) (low + 1) tokens = run at last ⊢
  generalize next tokens = step at last ⊢
  cases last with
  | value forward reached => exact .value (Nat.le_of_succ_le forward) reached
  | error forward => exact .error (Nat.le_of_succ_le forward)

/-- A node that is made on the way. -/
lemma making {make make' : Option Nat → Expr} {second : Expr → Counted γ} {next : Expr → Parser δ}
    (after : Counts (low + 1) (second (make (some low))) (next (make' none)) erased' goal) :
    Counts low (reader.node make >>= second) (Parser.reader.node make' >>= next) erased' goal :=
  behind_node after

lemma recovering {counted : Counted α} {parser : Parser β} {goal : Option α → Nat → Prop}
    (whole : Counts low counted parser erased reaches)
    (kept : ∀ value high, reaches value high → goal (some value) high)
    (dropped : ∀ high, low ≤ high → goal none high) :
    Counts low (Counted.recovering counted) (Parser.recovering parser) (Option.map erased) goal := by
  intro tokens
  have one := whole tokens
  unfold Counted.recovering Parser.recovering
  generalize counted low tokens = run at one ⊢
  generalize parser tokens = step at one ⊢
  cases one with
  | value forward reached => exact .value forward (kept _ _ reached)
  | error forward => exact .value forward (dropped _ forward)

end Counts

/-! ## Expressions -/

lemma occurrences_node {level : Level} (listed : level ∈ Level.all) (left right : Expr)
    (operator : Token) :
    (level.node left operator right).occurrences = left.occurrences ++ right.occurrences := by
  simp only [Level.all, List.mem_cons, List.not_mem_nil, or_false] at listed
  rcases listed with rfl | rfl | rfl | rfl | rfl | rfl <;> rfl

/-- With `n` steps, the rules for expressions number what they make. -/
structure CountsExpressions (n : Nat) : Prop where
  assignment : ∀ low, Counts low (reader.assignment n) (Parser.reader.assignment n)
    (Expr.revised unnumbered) (Carries low Expr.occurrences)
  operation : ∀ low levels, levels ⊆ Level.all → Counts low (reader.operation n levels)
    (Parser.reader.operation n levels) (Expr.revised unnumbered) (Carries low Expr.occurrences)
  chain : ∀ low middle level tighter left, level :: tighter ⊆ Level.all →
    Carries low Expr.occurrences left middle → Counts middle (reader.chain n level tighter left)
      (Parser.reader.chain n level tighter (left.revised unnumbered)) (Expr.revised unnumbered)
      (Carries low Expr.occurrences)
  unary : ∀ low, Counts low (reader.unary n) (Parser.reader.unary n) (Expr.revised unnumbered)
    (Carries low Expr.occurrences)
  calls : ∀ low middle callee, Carries low Expr.occurrences callee middle →
    Counts middle (reader.calls n callee) (Parser.reader.calls n (callee.revised unnumbered))
      (Expr.revised unnumbered) (Carries low Expr.occurrences)
  arguments : ∀ low count, Counts low (reader.arguments n count) (Parser.reader.arguments n count)
    (Expr.revisedAll unnumbered) (Carries low Expr.occurrencesAll)
  primary : ∀ low, Counts low (reader.primary n) (Parser.reader.primary n) (Expr.revised unnumbered)
    (Carries low Expr.occurrences)

namespace CountsExpressions

lemma zero : CountsExpressions 0 := by
  constructor <;> intros <;> exact .raise _

variable {n : Nat} (ih : CountsExpressions n)

include ih

/-- The variable on the left of an assignment is dropped, and its number with it. -/
lemma assignment_succ (low : Nat) : Counts low (reader.assignment (n + 1))
    (Parser.reader.assignment (n + 1)) (Expr.revised unnumbered) (Carries low Expr.occurrences) := by
  refine (ih.operation low Level.all (List.Subset.refl _)).bind fun target middle numbers forward => ?_
  refine .branch (.pure numbers) fun place => ?_
  refine (ih.assignment middle).bind fun value high numbers' forward' => ?_
  cases target with
  | «variable» name hops =>
      have numbers' : Numbers low high value.occurrences := numbers'.mono forward le_rfl
      exact .node rfl (numbers'.append (.singleton high true name))
  | _ => exact .behind fun _ => .pure (numbers.mono le_rfl forward')

lemma operation_succ (low : Nat) (levels : List Level) (listed : levels ⊆ Level.all) :
    Counts low (reader.operation (n + 1) levels) (Parser.reader.operation (n + 1) levels)
      (Expr.revised unnumbered) (Carries low Expr.occurrences) := by
  cases levels with
  | nil => exact ih.unary low
  | cons level tighter =>
      have tight : tighter ⊆ Level.all := (List.cons_subset.mp listed).2
      exact (ih.operation low tighter tight).bind fun left middle numbers _ =>
        ih.chain low middle level tighter left listed numbers

lemma chain_succ (low middle : Nat) (level : Level) (tighter : List Level) (left : Expr)
    (listed : level :: tighter ⊆ Level.all) (numbers : Carries low Expr.occurrences left middle) :
    Counts middle (reader.chain (n + 1) level tighter left)
      (Parser.reader.chain (n + 1) level tighter (left.revised unnumbered)) (Expr.revised unnumbered)
      (Carries low Expr.occurrences) := by
  have tight : tighter ⊆ Level.all := (List.cons_subset.mp listed).2
  refine .branch (.pure numbers) fun operator => ?_
  refine (ih.operation middle tighter tight).bind fun right high numbers' _ => .making ?_
  have here : level ∈ Level.all := listed List.mem_cons_self
  have same : (level.node left operator right).revised unnumbered =
      level.node (left.revised unnumbered) operator (right.revised unnumbered) :=
    Phrase.node_revised here left right operator
  rw [← same]
  refine ih.chain low _ level tighter _ listed ?_
  rw [Carries, occurrences_node here]
  exact (numbers.append numbers').mono le_rfl (Nat.le_succ high)

lemma unary_succ (low : Nat) : Counts low (reader.unary (n + 1)) (Parser.reader.unary (n + 1))
    (Expr.revised unnumbered) (Carries low Expr.occurrences) := by
  refine .branch ?_ fun operator => ?_
  · exact (ih.primary low).bind fun callee middle numbers _ => ih.calls low middle callee numbers
  · exact (ih.unary low).bind fun operand high numbers _ =>
      .node rfl (numbers.mono le_rfl (Nat.le_succ high))

lemma calls_succ (low middle : Nat) (callee : Expr)
    (numbers : Carries low Expr.occurrences callee middle) :
    Counts middle (reader.calls (n + 1) callee)
      (Parser.reader.calls (n + 1) (callee.revised unnumbered)) (Expr.revised unnumbered)
      (Carries low Expr.occurrences) := by
  have close (values : List Expr) (high : Nat)
      (numbers' : Carries middle Expr.occurrencesAll values high) :
      Counts high (do
        let paren ← reader.expect .rightParen .closeParenAfterArguments
        let whole ← reader.node fun _ => .call callee paren values
        reader.calls n whole) (do
        let paren ← Parser.reader.expect .rightParen .closeParenAfterArguments
        let whole ← Parser.reader.node fun _ =>
          .call (callee.revised unnumbered) paren (Expr.revisedAll unnumbered values)
        Parser.reader.calls n whole)
        (Expr.revised unnumbered) (Carries low Expr.occurrences) :=
    .behind fun paren => .making (ih.calls low _ _
      ((numbers.append numbers').mono le_rfl (Nat.le_succ high)))
  refine .branch (.pure numbers) fun _ => .behind fun closed => ?_
  cases closed with
  | true => exact close [] middle (.nil middle)
  | false => exact (ih.arguments middle 0).bind fun values high numbers' _ => close values high numbers'

lemma arguments_succ (low count : Nat) : Counts low (reader.arguments (n + 1) count)
    (Parser.reader.arguments (n + 1) count) (Expr.revisedAll unnumbered)
    (Carries low Expr.occurrencesAll) := by
  refine .guarded (.behind fun here => .lift _) ?_
  refine (ih.assignment low).bind fun first middle numbers _ => ?_
  refine .branch (.pure ?_) fun _ => ?_
  · simpa [Carries, Expr.occurrencesAll] using numbers
  · exact (ih.arguments middle (count + 1)).bind fun others high numbers' _ =>
      .pure (numbers.append numbers')

lemma primary_succ (low : Nat) : Counts low (reader.primary (n + 1)) (Parser.reader.primary (n + 1))
    (Expr.revised unnumbered) (Carries low Expr.occurrences) := by
  refine .branch ?_ fun value => .node rfl ((Numbers.nil low).mono le_rfl (Nat.le_succ low))
  refine .branch ?_ fun name => .node rfl (.singleton low false name)
  refine .branch (.raise _) fun _ => (ih.assignment low).bind fun inner high numbers _ => ?_
  exact .behind fun _ => .node rfl (numbers.mono le_rfl (Nat.le_succ high))

end CountsExpressions

/-- **The rules for expressions number what they make.** -/
theorem countsExpressions (n : Nat) : CountsExpressions n := by
  induction n with
  | zero => exact .zero
  | succ n ih =>
      exact ⟨ih.assignment_succ, ih.operation_succ, ih.chain_succ, ih.unary_succ, ih.calls_succ,
        ih.arguments_succ, ih.primary_succ⟩

/-! ## Parts of statements -/

lemma counts_expression (low : Nat) : Counts low expression Parser.expression
    (Expr.revised unnumbered) (Carries low Expr.occurrences) := by
  intro tokens
  have whole := (countsExpressions (Parser.allowance tokens)).assignment low tokens
  rwa [(Parser.reader_rules _).assignment] at whole

lemma counts_given (low : Nat) : Counts low (some <$> expression) (some <$> Parser.expression)
    (Option.map (Expr.revised unnumbered)) (Carries low Expr.occurrences?) :=
  (counts_expression low).bind fun _ _ numbers _ => .pure numbers

lemma counts_clause (low : Nat) (closing : Kind) : Counts low (reader.clause expression closing)
    (Parser.reader.clause Parser.expression closing) (Option.map (Expr.revised unnumbered))
    (Carries low Expr.occurrences?) :=
  .behind fun closed => by
    cases closed with
    | true => exact .pure (.nil low)
    | false => exact counts_given low

lemma counts_variableDeclaration (low : Nat) :
    Counts low (reader.variableDeclaration expression Stmt.variable)
      (Parser.reader.variableDeclaration Parser.expression Stmt.variable) (Stmt.revised unnumbered)
      (Carries low Stmt.occurrences) := by
  have close (name : Token) (initializer : Option Expr) (high : Nat)
      (numbers : Carries low Expr.occurrences? initializer high) :
      Counts high (do
        let _ ← reader.expect .semicolon .semicolonAfterVariable
        return Stmt.variable name initializer) (do
        let _ ← Parser.reader.expect .semicolon .semicolonAfterVariable
        return Stmt.variable name (initializer.map (Expr.revised unnumbered)))
        (Stmt.revised unnumbered) (Carries low Stmt.occurrences) :=
    .behind fun _ => .pure numbers
  refine .behind fun name => .branch (close name none low (.nil low)) fun _ => ?_
  exact (counts_given low).bind fun initializer high numbers _ => close name initializer high numbers

/-- An expression that is the only one in its statement. -/
lemma counts_valueStatement (low : Nat) (what : Expectation) {make : Expr → Stmt}
    (revised : ∀ value, (make value).revised unnumbered = make (value.revised unnumbered))
    (occurs : ∀ value, (make value).occurrences = value.occurrences) :
    Counts low (reader.valueStatement expression what make)
      (Parser.reader.valueStatement Parser.expression what make) (Stmt.revised unnumbered)
      (Carries low Stmt.occurrences) := by
  refine (counts_expression low).bind fun value high numbers _ => .behind fun _ => ?_
  refine .pure_of (revised value) ?_
  rw [Carries, occurs]
  exact numbers

lemma counts_returnStatement (low : Nat) (keyword : Token) :
    Counts low (reader.returnStatement expression (Stmt.return_ keyword))
      (Parser.reader.returnStatement Parser.expression (Stmt.return_ keyword))
      (Stmt.revised unnumbered) (Carries low Stmt.occurrences) :=
  (counts_clause low _).bind fun _ _ numbers _ => .behind fun _ => .pure numbers

lemma counts_condition (low : Nat) (opening closing : Expectation) :
    Counts low (reader.condition expression opening closing)
      (Parser.reader.condition Parser.expression opening closing)
      (Expr.revised unnumbered) (Carries low Expr.occurrences) :=
  .behind fun _ => (counts_expression low).bind fun _ _ numbers _ => .behind fun _ => .pure numbers

lemma counts_forInitializer (low : Nat) :
    Counts low (reader.forInitializer expression Stmt.variable Stmt.expression)
      (Parser.reader.forInitializer Parser.expression Stmt.variable Stmt.expression)
      (Stmt.revised? unnumbered) (Carries low Stmt.occurrences?) := by
  refine .branch (.branch ?_ fun _ => ?_) fun _ => .pure (.nil low)
  · exact (counts_valueStatement low _ (fun _ => rfl) fun _ => rfl).bind fun _ _ numbers _ =>
      .pure numbers
  · exact (counts_variableDeclaration low).bind fun _ _ numbers _ => .pure numbers

/-- The occurrences in the clauses of a `for` loop. -/
def clauseOccurrences (clauses : Option Stmt × Option Expr × Option Expr) : List Occurrence :=
  Stmt.occurrences? clauses.1 ++ Expr.occurrences? clauses.2.1 ++ Expr.occurrences? clauses.2.2

lemma counts_forClauses (low : Nat) :
    Counts low (reader.forClauses expression Stmt.variable Stmt.expression)
      (Parser.reader.forClauses Parser.expression Stmt.variable Stmt.expression)
    (fun clauses => (Stmt.revised? unnumbered clauses.1,
      clauses.2.1.map (Expr.revised unnumbered), clauses.2.2.map (Expr.revised unnumbered)))
    (Carries low clauseOccurrences) := by
  refine .behind fun _ => (counts_forInitializer low).bind fun initializer first one _ => ?_
  refine (counts_clause first _).bind fun condition second two _ => .behind fun _ => ?_
  refine (counts_clause second _).bind fun increment third three _ => .behind fun _ => ?_
  exact .pure (Numbers.append (Numbers.append one two) three)

/-! ## Statements -/

/-- In the tree, the last clause of a `for` loop stands behind the body. -/
lemma perm_occurrences_forLoop (initializer : Option Stmt) (condition : Expr)
    (increment : Option Expr) (body : Stmt) :
    (clauseOccurrences (initializer, some condition, increment) ++ body.occurrences).Perm
      (Stmt.forLoop initializer (some condition) increment body).occurrences := by
  have swap (increment : Expr) : (increment.occurrences ++ body.occurrences).Perm
      (body.occurrences ++ increment.occurrences) := List.perm_append_comm
  cases initializer <;> cases increment <;>
    simp [clauseOccurrences, Stmt.forLoop, Stmt.occurrences, Stmt.occurrencesAll, Stmt.occurrences?,
      Expr.occurrences?]
  · exact (swap _).append_left _
  · exact ((swap _).append_left _).append_left _

/-- A loop and what stands for its condition if that is missing. -/
lemma counts_forLoop {low high : Nat} (clauses : Option Stmt × Option Expr × Option Expr) (body : Stmt)
    (numbers : Numbers low high (clauseOccurrences clauses ++ body.occurrences)) :
    Counts high (assembly.forLoop clauses body)
      (Parser.assembly.forLoop (Stmt.revised? unnumbered clauses.1,
        clauses.2.1.map (Expr.revised unnumbered), clauses.2.2.map (Expr.revised unnumbered))
        (body.revised unnumbered))
      (Stmt.revised unnumbered) (Carries low Stmt.occurrences) := by
  obtain ⟨initializer, condition, increment⟩ := clauses
  cases condition with
  | some condition =>
      refine .pure_of (Stmt.forLoop_revised initializer (some condition) increment body) ?_
      exact numbers.perm (perm_occurrences_forLoop initializer condition increment body)
  | none =>
      -- the condition that stands for a missing one has no occurrences
      refine .behind_node (.pure_of ?_ ?_)
      · exact (Stmt.forLoop_revised initializer (some _) increment body).trans rfl
      · have placed := perm_occurrences_forLoop initializer (.literal (.bool true)) increment body
        exact (numbers.perm placed).mono le_rfl (Nat.le_succ high)

/-- With `n` steps, the rules for statements number what they make. -/
structure CountsStatements (n : Nat) : Prop where
  declaration : ∀ low, Counts low (assembly.declaration n) (Parser.assembly.declaration n)
    (Option.map (Stmt.revised unnumbered)) (Carries low Stmt.occurrences?)
  statement : ∀ low, Counts low (assembly.statement n) (Parser.assembly.statement n)
    (Stmt.revised unnumbered) (Carries low Stmt.occurrences)
  block : ∀ low, Counts low (assembly.block n) (Parser.assembly.block n)
    (Stmt.revisedAll unnumbered) (Carries low Stmt.occurrencesAll)
  declarations : ∀ low closing, Counts low (assembly.declarations n closing)
    (Parser.assembly.declarations n closing) (Stmt.revisedAll unnumbered)
    (Carries low Stmt.occurrencesAll)

namespace CountsStatements

/-- What an error throws away has no occurrences left. -/
lemma counts_recovering {low : Nat} {counted : Counted Stmt} {parser : Parser Stmt}
    (whole : Counts low counted parser (Stmt.revised unnumbered) (Carries low Stmt.occurrences)) :
    Counts low (recovering counted) (Parser.recovering parser)
      (Option.map (Stmt.revised unnumbered)) (Carries low Stmt.occurrences?) :=
  whole.recovering (fun _ _ numbers => numbers) fun _ forward => (Numbers.nil low).mono le_rfl forward

lemma zero : CountsStatements 0 :=
  ⟨fun _ => counts_recovering (.raise _), fun _ => .raise _, fun _ => .raise _, fun low _ =>
    .pure (.nil low)⟩

variable {n : Nat} (ih : CountsStatements n)

include ih

lemma declaration_succ (low : Nat) : Counts low (assembly.declaration (n + 1))
    (Parser.assembly.declaration (n + 1)) (Option.map (Stmt.revised unnumbered))
    (Carries low Stmt.occurrences?) := by
  refine counts_recovering (.branch ?_ fun _ => .behind ?_)
  · exact .branch (ih.statement low) fun _ => counts_variableDeclaration low
  · rintro ⟨name, names⟩
    refine (ih.block low).bind fun body high numbers _ => .pure_of ?_ numbers
    have same : names.map (Token.revised unnumbered) = names := Token.map_revised_eq_self rfl names
    exact congrArg (Stmt.function name · (Stmt.revisedAll unnumbered body)) same

lemma statement_succ (low : Nat) : Counts low (assembly.statement (n + 1))
    (Parser.assembly.statement (n + 1)) (Stmt.revised unnumbered) (Carries low Stmt.occurrences) := by
  refine .behind fun opening => ?_
  cases opening with
  | none => exact counts_valueStatement low _ (fun _ => rfl) fun _ => rfl
  | some opening =>
      cases opening with
      | forLoop =>
          refine (counts_forClauses low).bind fun clauses middle one _ => ?_
          exact (ih.statement middle).bind fun body _ two _ =>
            counts_forLoop clauses body (Numbers.append one two)
      | branch =>
          refine (counts_condition low _ _).bind fun condition first one _ => ?_
          refine (ih.statement first).bind fun consequent second two _ => ?_
          refine .branch (.pure ?_) fun _ => ?_
          · exact Numbers.append (Numbers.append one two) (.nil second)
          · exact (ih.statement second).bind fun alternative third three _ =>
              .pure (Numbers.append (Numbers.append one two) three)
      | loop =>
          refine (counts_condition low _ _).bind fun condition middle one _ => ?_
          exact (ih.statement middle).bind fun _ _ two _ => .pure (Numbers.append one two)
      | return_ keyword => exact counts_returnStatement low keyword
      | print => exact counts_valueStatement low _ (fun _ => rfl) fun _ => rfl
      | block => exact (ih.block low).bind fun body high numbers _ => .pure numbers

lemma block_succ (low : Nat) : Counts low (assembly.block (n + 1)) (Parser.assembly.block (n + 1))
    (Stmt.revisedAll unnumbered) (Carries low Stmt.occurrencesAll) :=
  (ih.declarations low _).bind fun _ _ numbers _ => .behind fun _ => .pure numbers

lemma declarations_succ (low : Nat) (closing : Option Kind) :
    Counts low (assembly.declarations (n + 1) closing) (Parser.assembly.declarations (n + 1) closing)
      (Stmt.revisedAll unnumbered) (Carries low Stmt.occurrencesAll) := by
  refine .behind fun stop => ?_
  cases stop with
  | true => exact .pure (.nil low)
  | false =>
      refine (ih.declaration low).bind fun first middle one _ => ?_
      refine (ih.declarations middle closing).bind fun others high two _ => ?_
      cases first with
      | none => exact .pure (two.mono one.le le_rfl)
      | some stmt => exact .pure (Numbers.append one two)

end CountsStatements

/-- **The rules for statements number what they make.** -/
theorem countsStatements (n : Nat) : CountsStatements n := by
  induction n with
  | zero => exact .zero
  | succ n ih =>
      exact ⟨ih.declaration_succ, ih.statement_succ, ih.block_succ, ih.declarations_succ⟩

/-! ## Whole inputs -/

/-- **The statements of a program are those of the parser, with numbers of their own.** -/
theorem parse_numbers (low : Nat) (tokens : List Token) :
    Stmt.revisedAll unnumbered (parse low tokens).1.tree = (Program.parse tokens).tree ∧
      (parse low tokens).1.reports = (Program.parse tokens).reports ∧
      Numbers low (parse low tokens).2 (Stmt.occurrencesAll (parse low tokens).1.tree) := by
  have whole := (countsStatements (Parser.allowance (Program.beforeEnd tokens))).declarations low none
    (Program.beforeEnd tokens)
  rw [(Parser.assembly_rules _).declarations] at whole
  unfold parse Program.parse
  dsimp only
  generalize assembly.declarations _ none low (Program.beforeEnd tokens) = run at whole ⊢
  generalize Parser.declarations _ none (Program.beforeEnd tokens) = step at whole ⊢
  cases whole with
  | value forward numbers => exact ⟨rfl, rfl, numbers⟩
  | error forward => exact ⟨rfl, rfl, (Numbers.nil low).mono le_rfl forward⟩

/-- **An expression is that of the parser, with numbers of its own.** -/
theorem parseExpression_numbers (low : Nat) (tokens : List Token) :
    (parseExpression low tokens).1.tree.map (Expr.revised unnumbered) =
        (Program.parseExpression tokens).tree ∧
      (parseExpression low tokens).1.reports = (Program.parseExpression tokens).reports ∧
      Numbers low (parseExpression low tokens).2
        (Expr.occurrences? (parseExpression low tokens).1.tree) := by
  have whole := counts_expression low (Program.beforeEnd tokens)
  unfold parseExpression Program.parseExpression
  generalize expression low (Program.beforeEnd tokens) = run at whole ⊢
  generalize Parser.expression (Program.beforeEnd tokens) = step at whole ⊢
  cases whole with
  | @value high reports rest value forward numbers =>
      cases rest with
      | nil => exact ⟨rfl, rfl, numbers⟩
      | cons token rest => exact ⟨rfl, rfl, (Numbers.nil low).mono le_rfl forward⟩
  | @error high reports rest error forward =>
      cases rest <;> exact ⟨rfl, rfl, (Numbers.nil low).mono le_rfl forward⟩

end Counted

end LoxLang
