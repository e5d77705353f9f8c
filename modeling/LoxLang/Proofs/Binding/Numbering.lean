import Mathlib
import LoxLang.Proofs.Program.Revision

/-!
# Numbered occurrences and a table of hops

Binding can leave a tree as it is and note the hops somewhere else: every occurrence gets a number of
its own when the tree is made, and a walk over the tree enters the hops of each local occurrence in a
table under its number.  The walk goes through the whole tree, whether or not it finds mistakes, and
the table keeps all that was ever entered.

* `Numbers` — occurrences carry numbers of their own, taken from a range.
* `Stmt.findings` — what the walk finds: for each occurrence its number, and its hops if it is local.
* `Table.enterAll` — the table after a walk.
* **`Stmt.revised_of_findings`** — reading the table at every occurrence gives the bound tree.
* **`Table.enterAll_of_mem`** — a number that is met once keeps what is found there.
* **`Table.enterAll_found`** — a table with all findings entered tells what was found, if the numbers
  were new to it.
* **`Stmt.exists_numbers`** — every tree can be numbered.
-/

namespace LoxLang

/-- Removes the numbers of a tree. -/
def Revision.unnumbered : Revision := ⟨id, fun _ => none⟩

/-- **Every occurrence carries a number of its own**, not below `low` and below `high`. -/
structure Numbers (low high : Nat) (occurrences : List Occurrence) : Prop where
  le : low ≤ high
  distinct : (occurrences.map Occurrence.hops).Nodup
  within : ∀ occurrence ∈ occurrences, ∃ number, occurrence.hops = some number ∧ low ≤ number ∧
    number < high

/-! ## The walk -/

/-- An occurrence as the walk meets it: its number, and the hops if a scope declares its name. -/
structure Finding where
  number : Option Nat
  hops : Option Nat

/-- What is found for the occurrences in an expression. -/
def Expr.findings (frames : Frames) (value : Expr) : List Finding :=
  value.occurrences.map fun occurrence => ⟨occurrence.hops, frames.hops? occurrence.name.lexeme⟩

/-- What is found for the occurrences in an expression that may be missing. -/
def Expr.findings? (frames : Frames) (value : Option Expr) : List Finding :=
  match value with
  | some value => value.findings frames
  | none => []

mutual

/-- What is found for the occurrences in a statement. -/
def Stmt.findings (frames : Frames) : Stmt → List Finding
  | .expression value => value.findings frames
  | .print value => value.findings frames
  | .variable name initializer => Expr.findings? (frames.declare name) initializer
  | .block body => Stmt.findingsAll ([] :: frames) body
  | .branch condition consequent alternative =>
    condition.findings frames ++ consequent.findings frames
      ++ Stmt.findings? (frames.behind consequent) alternative
  | .loop condition body => condition.findings frames ++ body.findings frames
  | .function name parameters body =>
    Stmt.findingsAll ((frames.declare name).enter parameters) body
  | .return_ _ value => Expr.findings? frames value

/-- What is found for the occurrences in statements. -/
def Stmt.findingsAll (frames : Frames) : List Stmt → List Finding
  | [] => []
  | first :: others => first.findings frames ++ Stmt.findingsAll (frames.behind first) others

/-- What is found for the occurrences in a statement that may be missing. -/
def Stmt.findings? (frames : Frames) : Option Stmt → List Finding
  | none => []
  | some stmt => stmt.findings frames

end

/-- Hops by numbers. -/
abbrev Table := Nat → Option Nat

namespace Table

/-- What the table tells for an occurrence; one without an entry is global. -/
def read (table : Table) (number : Option Nat) : Option Nat := number.bind table

/-- The table with a finding entered; for a global occurrence nothing is. -/
def enter (table : Table) (finding : Finding) : Table := fun number =>
  if finding.number = some number ∧ finding.hops.isSome then finding.hops else table number

/-- The table after a walk. -/
def enterAll (table : Table) (findings : List Finding) : Table := findings.foldl enter table

/-- The revision that puts the hops of the table in the place of the numbers. -/
def revision (table : Table) : Revision := ⟨id, table.read⟩

end Table

/-! ## The numbers in the findings are those of the occurrences -/

mutual

lemma Stmt.numbers_findings : ∀ (stmt : Stmt) (frames : Frames),
    (stmt.findings frames).map Finding.number = stmt.occurrences.map Occurrence.hops
  | .expression value, _ => by simp [findings, occurrences, Expr.findings]
  | .print value, _ => by simp [findings, occurrences, Expr.findings]
  | .variable _ initializer, _ => by
      cases initializer <;>
        simp [findings, occurrences, Expr.findings, Expr.findings?, Expr.occurrences?]
  | .block body, _ => Stmt.numbers_findingsAll body _
  | .branch condition consequent alternative, _ => by
      simp [findings, occurrences, Expr.findings, Stmt.numbers_findings consequent,
        Stmt.numbers_findings? alternative]
  | .loop condition body, _ => by
      simp [findings, occurrences, Expr.findings, Stmt.numbers_findings body]
  | .function _ _ body, _ => Stmt.numbers_findingsAll body _
  | .return_ _ value, _ => by
      cases value <;> simp [findings, occurrences, Expr.findings, Expr.findings?, Expr.occurrences?]

lemma Stmt.numbers_findingsAll : ∀ (stmts : List Stmt) (frames : Frames),
    (Stmt.findingsAll frames stmts).map Finding.number =
      (Stmt.occurrencesAll stmts).map Occurrence.hops
  | [], _ => rfl
  | first :: others, _ => by
      simp [findingsAll, occurrencesAll, Stmt.numbers_findings first,
        Stmt.numbers_findingsAll others]

lemma Stmt.numbers_findings? : ∀ (stmt : Option Stmt) (frames : Frames),
    (Stmt.findings? frames stmt).map Finding.number =
      (Stmt.occurrences? stmt).map Occurrence.hops
  | none, _ => rfl
  | some stmt, _ => Stmt.numbers_findings stmt _

end

/-! ## Reading what was found gives the bound tree -/

/-- A table, as a revision, tells what was found. -/
def Revision.Tells (r : Revision) (findings : List Finding) : Prop :=
  ∀ finding ∈ findings, r.hops finding.number = finding.hops

@[simp] lemma Revision.tells_append (r : Revision) (left right : List Finding) :
    r.Tells (left ++ right) ↔ r.Tells left ∧ r.Tells right := List.forall_mem_append

section

variable {r : Revision}

lemma Token.revised_unnumbered (lines : r.line = id) (token : Token) :
    token.revised r = token.revised .unnumbered := by
  rw [token.revised_eq_self lines, token.revised_eq_self rfl]

lemma Token.map_revised_unnumbered (lines : r.line = id) (tokens : List Token) :
    tokens.map (Token.revised r) = tokens.map (Token.revised .unnumbered) :=
  List.map_congr_left fun token _ => token.revised_unnumbered lines

mutual

lemma Expr.revised_of_findings (lines : r.line = id) (frames : Frames) : ∀ value : Expr,
    r.Tells (value.findings frames) → value.revised r = (value.revised .unnumbered).bound frames
  | .literal _, _ => rfl
  | .group inner, tells => congrArg Expr.group (Expr.revised_of_findings lines frames inner tells)
  | .unary _ operand, tells => by
      simp only [Expr.revised, Expr.bound, Token.revised_unnumbered lines,
        Expr.revised_of_findings lines frames operand tells]
  | .binary left _ right, tells => by
      simp only [Expr.findings, Expr.occurrences, List.map_append, Revision.tells_append] at tells
      simp only [Expr.revised, Expr.bound, Token.revised_unnumbered lines,
        Expr.revised_of_findings lines frames left tells.1,
        Expr.revised_of_findings lines frames right tells.2]
  | .logical left _ right, tells => by
      simp only [Expr.findings, Expr.occurrences, List.map_append, Revision.tells_append] at tells
      simp only [Expr.revised, Expr.bound, Token.revised_unnumbered lines,
        Expr.revised_of_findings lines frames left tells.1,
        Expr.revised_of_findings lines frames right tells.2]
  | .variable name number, tells => by
      have found := tells _ (List.mem_singleton_self _)
      simp only at found
      simp only [Expr.revised, Expr.bound, Token.revised_unnumbered lines, found,
        Token.lexeme_revised, Revision.unnumbered, Option.or_none]
  | .assign name value number, tells => by
      simp only [Expr.findings, Expr.occurrences, List.map_append, Revision.tells_append] at tells
      have found := tells.2 _ (List.mem_singleton_self _)
      simp only at found
      simp only [Expr.revised, Expr.bound, Token.revised_unnumbered lines, found,
        Token.lexeme_revised, Expr.revised_of_findings lines frames value tells.1,
        Revision.unnumbered, Option.or_none]
  | .call callee _ arguments, tells => by
      simp only [Expr.findings, Expr.occurrences, List.map_append, Revision.tells_append] at tells
      simp only [Expr.revised, Expr.bound, Token.revised_unnumbered lines,
        Expr.revised_of_findings lines frames callee tells.1,
        Expr.revisedAll_of_findings lines frames arguments tells.2]

lemma Expr.revisedAll_of_findings (lines : r.line = id) (frames : Frames) : ∀ values : List Expr,
    r.Tells ((Expr.occurrencesAll values).map fun occurrence =>
      ⟨occurrence.hops, frames.hops? occurrence.name.lexeme⟩) →
    Expr.revisedAll r values = Expr.boundAll frames (Expr.revisedAll .unnumbered values)
  | [], _ => rfl
  | value :: others, tells => by
      simp only [Expr.occurrencesAll, List.map_append, Revision.tells_append] at tells
      simp only [Expr.revisedAll, Expr.boundAll,
        Expr.revised_of_findings lines frames value tells.1,
        Expr.revisedAll_of_findings lines frames others tells.2]

end

lemma Expr.map_revised_of_findings (lines : r.line = id) (frames : Frames) (value : Option Expr)
    (tells : r.Tells (Expr.findings? frames value)) : value.map (Expr.revised r) =
      (value.map (Expr.revised .unnumbered)).map (Expr.bound frames) := by
  cases value with
  | none => rfl
  | some value => exact congrArg some (value.revised_of_findings lines frames tells)

mutual

/-- **Reading what was found at every occurrence gives the bound statement.** -/
theorem Stmt.revised_of_findings (lines : r.line = id) : ∀ (stmt : Stmt) (frames : Frames),
    r.Tells (stmt.findings frames) → stmt.revised r = (stmt.revised .unnumbered).bound frames
  | .expression value, frames, tells =>
      congrArg Stmt.expression (value.revised_of_findings lines frames tells)
  | .print value, frames, tells => congrArg Stmt.print (value.revised_of_findings lines frames tells)
  | .variable _ initializer, frames, tells => by
      simp only [Stmt.revised, Stmt.bound, Frames.declare_revised, Token.revised_unnumbered lines,
        Expr.map_revised_of_findings lines _ initializer tells]
  | .block body, frames, tells =>
      congrArg Stmt.block (Stmt.revisedAll_of_findings lines body _ tells)
  | .branch condition consequent alternative, frames, tells => by
      rw [Stmt.findings, Revision.tells_append, Revision.tells_append] at tells
      simp only [Stmt.revised, Stmt.bound, Frames.behind_revised,
        Expr.revised_of_findings lines frames condition tells.1.1,
        Stmt.revised_of_findings lines consequent frames tells.1.2,
        Stmt.revised?_of_findings lines alternative _ tells.2]
  | .loop condition body, frames, tells => by
      rw [Stmt.findings, Revision.tells_append] at tells
      simp only [Stmt.revised, Stmt.bound, Expr.revised_of_findings lines frames condition tells.1,
        Stmt.revised_of_findings lines body frames tells.2]
  | .function _ parameters body, frames, tells => by
      simp only [Stmt.revised, Stmt.bound, Frames.declare_revised, Frames.enter_revised,
        Token.revised_unnumbered lines, Token.map_revised_unnumbered lines,
        Stmt.revisedAll_of_findings lines body _ tells]
  | .return_ _ value, frames, tells => by
      simp only [Stmt.revised, Stmt.bound, Token.revised_unnumbered lines,
        Expr.map_revised_of_findings lines _ value tells]

lemma Stmt.revisedAll_of_findings (lines : r.line = id) : ∀ (stmts : List Stmt) (frames : Frames),
    r.Tells (Stmt.findingsAll frames stmts) →
    Stmt.revisedAll r stmts = Stmt.boundAll frames (Stmt.revisedAll .unnumbered stmts)
  | [], _, _ => rfl
  | stmt :: others, frames, tells => by
      rw [Stmt.findingsAll, Revision.tells_append] at tells
      simp only [Stmt.revisedAll, Stmt.boundAll, Frames.behind_revised,
        Stmt.revised_of_findings lines stmt frames tells.1,
        Stmt.revisedAll_of_findings lines others _ tells.2]

lemma Stmt.revised?_of_findings (lines : r.line = id) : ∀ (stmt : Option Stmt) (frames : Frames),
    r.Tells (Stmt.findings? frames stmt) →
    Stmt.revised? r stmt = Stmt.bound? frames (Stmt.revised? .unnumbered stmt)
  | none, _, _ => rfl
  | some stmt, frames, tells => congrArg some (Stmt.revised_of_findings lines stmt frames tells)

end

end

/-! ## The table after a walk -/

namespace Table

lemma enter_none (table : Table) (number : Option Nat) : table.enter ⟨number, none⟩ = table := by
  funext other
  simp [enter]

lemma enterAll_append (table : Table) (early late : List Finding) :
    table.enterAll (early ++ late) = (table.enterAll early).enterAll late := List.foldl_append

/-- A walk enters nothing under numbers that it does not meet. -/
lemma enterAll_of_not_mem : ∀ (findings : List Finding) (table : Table) {number : Nat},
    some number ∉ findings.map Finding.number → table.enterAll findings number = table number
  | [], _, _, _ => rfl
  | finding :: others, table, number, unmet => by
      simp only [List.map_cons, List.mem_cons, not_or] at unmet
      rw [enterAll, List.foldl_cons, ← enterAll, enterAll_of_not_mem others _ unmet.2, enter,
        if_neg fun met => unmet.1 met.1.symm]

/-- **A number that is met once keeps what is found there**; a global occurrence leaves it alone. -/
theorem enterAll_of_mem : ∀ (findings : List Finding) (table : Table) {finding : Finding}
    {number : Nat}, (findings.map Finding.number).Nodup → finding ∈ findings →
    finding.number = some number →
    table.enterAll findings number = finding.hops.or (table number)
  | first :: others, table, finding, number, distinct, listed, carried => by
      rw [List.map_cons, List.nodup_cons] at distinct
      rw [enterAll, List.foldl_cons, ← enterAll]
      rcases List.mem_cons.mp listed with rfl | listed
      · rw [carried] at distinct
        rw [enterAll_of_not_mem others _ distinct.1, enter]
        cases finding.hops <;> simp [carried]
      · have unlike : first.number ≠ some number := fun same =>
          distinct.1 (same ▸ carried ▸ List.mem_map_of_mem listed)
        rw [enterAll_of_mem others _ distinct.2 listed carried, enter,
          if_neg fun met => unlike met.1]

/-- **After a walk the table tells what was found**, if no number is met twice and all of them are new
to the table. -/
theorem enterAll_found (findings : List Finding) (table : Table)
    (distinct : (findings.map Finding.number).Nodup)
    (unused : ∀ finding ∈ findings, ∃ number, finding.number = some number ∧ table number = none) :
    (table.enterAll findings).revision.Tells findings := by
  intro finding listed
  obtain ⟨number, carried, empty⟩ := unused finding listed
  have kept := enterAll_of_mem findings table distinct listed carried
  rw [empty, Option.or_none] at kept
  show finding.number.bind (table.enterAll findings) = finding.hops
  rw [carried, Option.bind_some, kept]

end Table

/-! ## Numbering a tree -/

namespace Numbers

variable {low middle high : Nat} {left right : List Occurrence}

lemma nil (low : Nat) : Numbers low low [] := ⟨le_rfl, List.nodup_nil, fun _ mem => by cases mem⟩

/-- Numbers of two parts, where those of the second follow those of the first. -/
lemma append (first : Numbers low middle left) (second : Numbers middle high right) :
    Numbers low high (left ++ right) := by
  refine ⟨first.le.trans second.le, ?_, fun occurrence mem => ?_⟩
  · rw [List.map_append, List.nodup_append']
    refine ⟨first.distinct, second.distinct, ?_⟩
    rw [List.disjoint_left]
    intro key here there
    obtain ⟨occurrence, mem, rfl⟩ := List.mem_map.mp here
    obtain ⟨other, mem', same⟩ := List.mem_map.mp there
    obtain ⟨number, carried, _, below⟩ := first.within occurrence mem
    obtain ⟨number', carried', above, _⟩ := second.within other mem'
    rw [carried, carried', Option.some.injEq] at same
    omega
  · rcases List.mem_append.mp mem with here | there
    · obtain ⟨number, carried, above, below⟩ := first.within occurrence here
      exact ⟨number, carried, above, below.trans_le second.le⟩
    · obtain ⟨number, carried, above, below⟩ := second.within occurrence there
      exact ⟨number, carried, first.le.trans above, below⟩

lemma singleton (low : Nat) (assigned : Bool) (name : Token) :
    Numbers low (low + 1) [⟨assigned, name, some low⟩] :=
  ⟨Nat.le_succ low, List.nodup_singleton _, fun occurrence mem =>
    ⟨low, by rw [List.mem_singleton.mp mem], le_rfl, Nat.lt_succ_self low⟩⟩

end Numbers

mutual

lemma Expr.exists_numbers : ∀ (value : Expr) (low : Nat), ∃ numbered high,
    Expr.revised .unnumbered numbered = value.revised .unnumbered ∧
      Numbers low high numbered.occurrences
  | .literal constant, low => ⟨.literal constant, low, rfl, .nil low⟩
  | .group inner, low => by
      obtain ⟨numbered, high, same, numbers⟩ := Expr.exists_numbers inner low
      exact ⟨.group numbered, high, congrArg Expr.group same, numbers⟩
  | .unary operator operand, low => by
      obtain ⟨numbered, high, same, numbers⟩ := Expr.exists_numbers operand low
      exact ⟨.unary operator numbered, high, by rw [Expr.revised, same]; rfl, numbers⟩
  | .binary left operator right, low => by
      obtain ⟨first, middle, same, numbers⟩ := Expr.exists_numbers left low
      obtain ⟨second, high, same', numbers'⟩ := Expr.exists_numbers right middle
      exact ⟨.binary first operator second, high, by rw [Expr.revised, same, same']; rfl,
        numbers.append numbers'⟩
  | .logical left operator right, low => by
      obtain ⟨first, middle, same, numbers⟩ := Expr.exists_numbers left low
      obtain ⟨second, high, same', numbers'⟩ := Expr.exists_numbers right middle
      exact ⟨.logical first operator second, high, by rw [Expr.revised, same, same']; rfl,
        numbers.append numbers'⟩
  | .variable name hops, low =>
      ⟨.variable name (some low), low + 1, rfl, .singleton low false name⟩
  | .assign name value hops, low => by
      obtain ⟨numbered, high, same, numbers⟩ := Expr.exists_numbers value low
      exact ⟨.assign name numbered (some high), high + 1, by rw [Expr.revised, same]; rfl,
        numbers.append (.singleton high true name)⟩
  | .call callee paren arguments, low => by
      obtain ⟨first, middle, same, numbers⟩ := Expr.exists_numbers callee low
      obtain ⟨others, high, same', numbers'⟩ := Expr.exists_numbersAll arguments middle
      exact ⟨.call first paren others, high, by rw [Expr.revised, same, same']; rfl,
        numbers.append numbers'⟩

lemma Expr.exists_numbersAll : ∀ (values : List Expr) (low : Nat), ∃ numbered high,
    Expr.revisedAll .unnumbered numbered = Expr.revisedAll .unnumbered values ∧
      Numbers low high (Expr.occurrencesAll numbered)
  | [], low => ⟨[], low, rfl, .nil low⟩
  | value :: others, low => by
      obtain ⟨first, middle, same, numbers⟩ := Expr.exists_numbers value low
      obtain ⟨rest, high, same', numbers'⟩ := Expr.exists_numbersAll others middle
      exact ⟨first :: rest, high, by rw [Expr.revisedAll, same, same']; rfl,
        numbers.append numbers'⟩

end

lemma Expr.exists_numbers? (value : Option Expr) (low : Nat) : ∃ numbered high,
    numbered.map (Expr.revised .unnumbered) = value.map (Expr.revised .unnumbered) ∧
      Numbers low high (Expr.occurrences? numbered) := by
  cases value with
  | none => exact ⟨none, low, rfl, .nil low⟩
  | some value =>
      obtain ⟨numbered, high, same, numbers⟩ := value.exists_numbers low
      exact ⟨some numbered, high, congrArg some same, numbers⟩

mutual

/-- **Every statement can be numbered**, with numbers from `low` on. -/
theorem Stmt.exists_numbers : ∀ (stmt : Stmt) (low : Nat), ∃ numbered high,
    Stmt.revised .unnumbered numbered = stmt.revised .unnumbered ∧
      Numbers low high numbered.occurrences
  | .expression value, low => by
      obtain ⟨numbered, high, same, numbers⟩ := value.exists_numbers low
      exact ⟨.expression numbered, high, congrArg Stmt.expression same, numbers⟩
  | .print value, low => by
      obtain ⟨numbered, high, same, numbers⟩ := value.exists_numbers low
      exact ⟨.print numbered, high, congrArg Stmt.print same, numbers⟩
  | .variable name initializer, low => by
      obtain ⟨numbered, high, same, numbers⟩ := Expr.exists_numbers? initializer low
      exact ⟨.variable name numbered, high, by rw [Stmt.revised, same]; rfl, numbers⟩
  | .block body, low => by
      obtain ⟨numbered, high, same, numbers⟩ := Stmt.exists_numbersAll body low
      exact ⟨.block numbered, high, congrArg Stmt.block same, numbers⟩
  | .branch condition consequent alternative, low => by
      obtain ⟨first, middle, same, numbers⟩ := condition.exists_numbers low
      obtain ⟨second, middle', same', numbers'⟩ := Stmt.exists_numbers consequent middle
      obtain ⟨third, high, same'', numbers''⟩ := Stmt.exists_numbers? alternative middle'
      exact ⟨.branch first second third, high, by rw [Stmt.revised, same, same', same'']; rfl,
        (numbers.append numbers').append numbers''⟩
  | .loop condition body, low => by
      obtain ⟨first, middle, same, numbers⟩ := condition.exists_numbers low
      obtain ⟨second, high, same', numbers'⟩ := Stmt.exists_numbers body middle
      exact ⟨.loop first second, high, by rw [Stmt.revised, same, same']; rfl,
        numbers.append numbers'⟩
  | .function name parameters body, low => by
      obtain ⟨numbered, high, same, numbers⟩ := Stmt.exists_numbersAll body low
      exact ⟨.function name parameters numbered, high, by rw [Stmt.revised, same]; rfl, numbers⟩
  | .return_ keyword value, low => by
      obtain ⟨numbered, high, same, numbers⟩ := Expr.exists_numbers? value low
      exact ⟨.return_ keyword numbered, high, by rw [Stmt.revised, same]; rfl, numbers⟩

lemma Stmt.exists_numbersAll : ∀ (stmts : List Stmt) (low : Nat), ∃ numbered high,
    Stmt.revisedAll .unnumbered numbered = Stmt.revisedAll .unnumbered stmts ∧
      Numbers low high (Stmt.occurrencesAll numbered)
  | [], low => ⟨[], low, rfl, .nil low⟩
  | stmt :: others, low => by
      obtain ⟨first, middle, same, numbers⟩ := Stmt.exists_numbers stmt low
      obtain ⟨rest, high, same', numbers'⟩ := Stmt.exists_numbersAll others middle
      exact ⟨first :: rest, high, by rw [Stmt.revisedAll, same, same']; rfl,
        numbers.append numbers'⟩

lemma Stmt.exists_numbers? : ∀ (stmt : Option Stmt) (low : Nat), ∃ numbered high,
    Stmt.revised? .unnumbered numbered = Stmt.revised? .unnumbered stmt ∧
      Numbers low high (Stmt.occurrences? numbered)
  | none, low => ⟨none, low, rfl, .nil low⟩
  | some stmt, low => by
      obtain ⟨numbered, high, same, numbers⟩ := Stmt.exists_numbers stmt low
      exact ⟨some numbered, high, congrArg some same, numbers⟩

end

end LoxLang
