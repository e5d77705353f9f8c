import LoxLang.Proofs.Binding.Resolver
import LoxLang.Proofs.Grammar.Fresh
import LoxLang.Proofs.Grammar.Numbered
import Mathlib

/-!
# Recorded depths

The depth that binding records for an occurrence of a variable can be told from the program text: among
the blocks and function bodies around the occurrence, it is the number of those inside the nearest one
that declares the name in front of the occurrence.  Where none of them declares it nothing is recorded.

* `Occurs` — the places of a program where variables are read or assigned.
* `Enclosure.depth?` — the distance of a name from a place.
* **`Stmt.mem_findingsAll_iff`** — the walk finds the distance of the name of every occurrence.
* **`Program.records_depths`** — so it is in the table behind the walk through any tree that is read,
  with or without mistakes in it, and the rest of the table is as it was.
-/

namespace LoxLang

/-! ## Trees with other numbers -/

section

variable (r : Revision)

mutual

lemma Stmt.orderly_revised : ∀ stmt : Stmt, (stmt.revised r).Orderly ↔ stmt.Orderly
  | .expression _ | .print _ | .variable _ _ | .return_ _ _ => Iff.rfl
  | .block body => Stmt.orderlyAll_revised body
  | .branch _ consequent alternative => by
      rw [revised, Orderly, Orderly, Stmt.declared_revised, Stmt.declared?_revised,
        List.map_eq_nil_iff, List.map_eq_nil_iff, Stmt.orderly_revised consequent,
        Stmt.orderly?_revised alternative]
  | .loop _ body => by
      rw [revised, Orderly, Orderly, Stmt.declared_revised, List.map_eq_nil_iff,
        Stmt.orderly_revised body]
  | .function _ _ body => Stmt.orderlyAll_revised body

lemma Stmt.orderlyAll_revised : ∀ stmts : List Stmt,
    Stmt.OrderlyAll (Stmt.revisedAll r stmts) ↔ Stmt.OrderlyAll stmts
  | [] => Iff.rfl
  | first :: others => by
      rw [revisedAll, OrderlyAll, OrderlyAll, Stmt.orderly_revised first,
        Stmt.orderlyAll_revised others]

lemma Stmt.orderly?_revised : ∀ stmt : Option Stmt,
    Stmt.Orderly? (Stmt.revised? r stmt) ↔ Stmt.Orderly? stmt
  | none => Iff.rfl
  | some stmt => Stmt.orderly_revised stmt

end

end

/-- Branches and loop bodies of a numbered tree are no declarations. -/
lemma Counted.parse_orderly (low : Nat) (tokens : List Token) :
    Stmt.OrderlyAll (Counted.parse low tokens).1.tree := by
  rw [← Stmt.orderlyAll_revised .unnumbered, (Counted.parse_numbers low tokens).1]
  exact (Program.parse_fresh tokens).1

/-! ## Distances -/

/-- **A place of a program where a variable is read or assigned**, with the blocks and function bodies
around it. -/
def Occurs (program : List Stmt) (enclosures : List Enclosure) (occurrence : Occurrence) : Prop :=
  ∃ stmt, Within program enclosures stmt ∧ ∃ value ∈ stmt.values, occurrence ∈ value.occurrences

namespace Enclosure

variable {enclosures : List Enclosure} {name : String}

/-- How many enclosures lie inside the nearest one that declares a name. -/
def depth? (enclosures : List Enclosure) (name : String) : Option Nat :=
  enclosures.findIdx? (·.declares name)

/-- The distance is counted in frames when the names are kept in frames. -/
lemma hops?_frames (enclosures : List Enclosure) (name : String) :
    (frames enclosures).hops? name = depth? enclosures name := by
  have same : (fun names : List String => names.contains name)
        ∘ (fun enclosure : Enclosure => (enclosure.declared.map Token.lexeme).reverse)
      = fun enclosure => enclosure.declares name := by
    funext enclosure
    rw [Function.comp, List.contains_reverse, declares, List.contains_eq_any_beq, List.any_map]
    congr 1
    funext token
    exact BEq.comm
  rw [Frames.hops?, frames, List.findIdx?_map, same, depth?]

end Enclosure

section

variable {program : List Stmt} (ordered : Stmt.OrderlyAll program)

include ordered

/-- Every occurrence in a program has its place. -/
theorem Stmt.mem_occurrencesAll_iff {occurrence : Occurrence} :
    occurrence ∈ Stmt.occurrencesAll program ↔ ∃ enclosures, Occurs program enclosures occurrence := by
  rw [Stmt.occurrencesAll_walk false program [], List.mem_flatMap]
  constructor
  · rintro ⟨spot, visited, found⟩
    obtain ⟨enclosures, within, -⟩ := (Stmt.mem_walk_iff ordered).mp visited
    exact ⟨enclosures, spot.stmt, within, List.mem_flatMap.mp found⟩
  · rintro ⟨enclosures, stmt, within, found⟩
    exact ⟨⟨_, _, stmt⟩, (Stmt.mem_walk_iff ordered).mpr ⟨enclosures, within, rfl, rfl⟩,
      List.mem_flatMap.mpr found⟩

/-- **The walk finds the distance of the name of every occurrence**, and nothing else. -/
theorem Stmt.mem_findingsAll_iff {finding : Finding} :
    finding ∈ Stmt.findingsAll [] program ↔ ∃ enclosures occurrence,
      Occurs program enclosures occurrence
        ∧ finding = ⟨occurrence.hops, Enclosure.depth? enclosures occurrence.name.lexeme⟩ := by
  have found {enclosures : List Enclosure} {stmt : Stmt} (within : Within program enclosures stmt)
      (value : Expr) : value.findings ((Enclosure.framesBefore enclosures).inside stmt)
        = value.occurrences.map fun occurrence =>
          ⟨occurrence.hops, Enclosure.depth? enclosures occurrence.name.lexeme⟩ := by
    simp only [Expr.findings, within.frames_inside ordered, Enclosure.hops?_frames]
  rw [Stmt.findingsAll_walk false program [], List.mem_flatMap]
  constructor
  · rintro ⟨spot, visited, met⟩
    obtain ⟨enclosures, within, frames, -⟩ := (Stmt.mem_walk_iff ordered).mp visited
    obtain ⟨value, listed, met⟩ := List.mem_flatMap.mp met
    rw [frames, found within, List.mem_map] at met
    obtain ⟨occurrence, mem, rfl⟩ := met
    exact ⟨enclosures, occurrence, ⟨spot.stmt, within, value, listed, mem⟩, rfl⟩
  · rintro ⟨enclosures, occurrence, ⟨stmt, within, value, listed, mem⟩, rfl⟩
    refine ⟨⟨Enclosure.framesBefore enclosures, Enclosure.inFunction enclosures, stmt⟩,
      (Stmt.mem_walk_iff ordered).mpr ⟨enclosures, within, rfl, rfl⟩,
      List.mem_flatMap.mpr ⟨value, listed, ?_⟩⟩
    rw [found within]
    exact List.mem_map_of_mem mem

end

/-! ## The tree that is read -/

namespace Program

/-- **Recorded depths are distances in the program text.**  Take the tree of any tokens, with its
occurrences numbered from anywhere on, and walk through it with whatever errors were told of before
and whatever stands in the table.  Every occurrence has its place in the program.  Behind the walk, the
table has under its number the number of blocks and function bodies inside the nearest one that
declares the name in front of the place, and what it had before if there is none.  Only numbers of such
occurrences have another entry than before.  Where the numbers were new to the table, reading it at the
occurrences gives the bound program. -/
theorem records_depths (low : Nat) (tokens : List Token) (reports : List ScopeReport) (table : Table) :
    let parsed := Counted.parse low tokens
    let program := parsed.1.tree
    let pass := (⟨[], false, reports, table⟩ : Resolver).statements program
    Stmt.revisedAll .unnumbered program = (parse tokens).tree
      ∧ (∀ occurrence ∈ Stmt.occurrencesAll program,
        ∃ enclosures, Occurs program enclosures occurrence)
      ∧ (∀ enclosures occurrence, Occurs program enclosures occurrence →
        ∃ number, occurrence.hops = some number ∧ low ≤ number ∧ number < parsed.2
          ∧ pass.table number
            = (Enclosure.depth? enclosures occurrence.name.lexeme).or (table number))
      ∧ (∀ number, pass.table number ≠ table number →
        ∃ enclosures occurrence, Occurs program enclosures occurrence
          ∧ occurrence.hops = some number
          ∧ (Enclosure.depth? enclosures occurrence.name.lexeme).isSome)
      ∧ ((∀ number, low ≤ number → number < parsed.2 → table number = none) →
        Stmt.revisedAll pass.table.revision program = bound (parse tokens).tree) := by
  intro parsed program pass
  obtain ⟨unnumbered, -, numbers⟩ := Counted.parse_numbers low tokens
  have ordered := Counted.parse_orderly low tokens
  have behind : pass.table = table.enterAll (Stmt.findingsAll [] program) :=
    congrArg Resolver.table (Resolver.program_eq program reports table)
  have distinct : ((Stmt.findingsAll [] program).map Finding.number).Nodup := by
    rw [Stmt.numbers_findingsAll]
    exact numbers.distinct
  have numbered {enclosures : List Enclosure} {occurrence : Occurrence}
      (occurs : Occurs program enclosures occurrence) :
      ∃ number, occurrence.hops = some number ∧ low ≤ number ∧ number < parsed.2 :=
    numbers.within occurrence ((Stmt.mem_occurrencesAll_iff ordered).mpr ⟨enclosures, occurs⟩)
  refine ⟨unnumbered, fun occurrence => (Stmt.mem_occurrencesAll_iff ordered).mp,
    fun enclosures occurrence occurs => ?_, fun number changed => ?_, fun free => ?_⟩
  · obtain ⟨number, carried, above, below⟩ := numbered occurs
    refine ⟨number, carried, above, below, ?_⟩
    rw [behind]
    exact Table.enterAll_of_mem _ table distinct
      ((Stmt.mem_findingsAll_iff ordered).mpr ⟨enclosures, occurrence, occurs, rfl⟩) carried
  · rw [behind] at changed
    have met : some number ∈ (Stmt.findingsAll [] program).map Finding.number := by
      by_contra unmet
      exact changed (Table.enterAll_of_not_mem _ table unmet)
    obtain ⟨finding, listed, carried⟩ := List.mem_map.mp met
    rw [Table.enterAll_of_mem _ table distinct listed carried] at changed
    obtain ⟨enclosures, occurrence, occurs, rfl⟩ := (Stmt.mem_findingsAll_iff ordered).mp listed
    refine ⟨enclosures, occurrence, occurs, carried, ?_⟩
    cases deep : Enclosure.depth? enclosures occurrence.name.lexeme with
    | some depth => rfl
    | none =>
        dsimp only at changed
        rw [deep, Option.none_or] at changed
        exact absurd rfl changed
  · rw [behind, bound, ← unnumbered]
    refine Stmt.revisedAll_of_findings rfl program []
      (Table.enterAll_found _ table distinct fun finding listed => ?_)
    obtain ⟨enclosures, occurrence, occurs, rfl⟩ := (Stmt.mem_findingsAll_iff ordered).mp listed
    obtain ⟨number, carried, above, below⟩ := numbered occurs
    exact ⟨number, carried, free number above below⟩

/-- In `{ var a; fun f(b) { a = b; } }`, the assignment has number 9 if the first node has 7.  The body
of the function is the only scope between it and the declaration. -/
theorem records_depths_function :
    let name (text : String) : Token := ⟨.identifier, text, none, 1⟩
    let tokens : List Token := [Kind.leftBrace.mark, (Kind.keyword .var).mark, name "a",
      Kind.semicolon.mark, (Kind.keyword .fun_).mark, name "f", Kind.leftParen.mark, name "b",
      Kind.rightParen.mark, Kind.leftBrace.mark, name "a", Kind.equal.mark, name "b",
      Kind.semicolon.mark, Kind.rightBrace.mark, Kind.rightBrace.mark, .endMark 1]
    let assignment : Stmt := .expression (.assign (name "a") (.variable (name "b") (some 8)) (some 9))
    let function : Stmt := .function (name "f") [name "b"] [assignment]
    let enclosures : List Enclosure :=
      [⟨some [name "b"], [], assignment⟩, ⟨none, [.variable (name "a") none], function⟩]
    let empty : Table := fun _ => none
    let program := (Counted.parse 7 tokens).1.tree
    let pass := (⟨[], false, [], empty⟩ : Resolver).statements program
    Occurs program enclosures ⟨true, name "a", some 9⟩ ∧ pass.table 9 = some 1
      ∧ (∀ number, 7 ≤ number → number < (Counted.parse 7 tokens).2 → empty number = none)
      ∧ Stmt.revisedAll pass.table.revision program
        = [.block [.variable (name "a") none, .function (name "f") [name "b"]
          [.expression (.assign (name "a") (.variable (name "b") (some 0)) (some 1))]]] := by
  intro name tokens assignment function enclosures empty program pass
  have tree : program = [.block [.variable (name "a") none, function]] := by
    simp only [program, tokens, name, function, assignment]
    cbv
  have unbound : (parse tokens).tree = [.block [.variable (name "a") none, .function (name "f")
      [name "b"] [.expression (.assign (name "a") (.variable (name "b") none) none)]]] := by
    simp only [tokens, name]
    cbv
  obtain ⟨-, -, recorded, -, read⟩ := records_depths 7 tokens [] empty
  -- named first, or the walk is carried out where its results are compared
  have walked : (⟨[], false, [], empty⟩ : Resolver).statements (Counted.parse 7 tokens).1.tree
      = pass := rfl
  rw [walked] at recorded read
  have block : Within program [] (.block ([.variable (name "a") none] ++ function :: [])) :=
    .top (by rw [tree]; exact List.mem_singleton_self _)
  have body : Within program [⟨none, [.variable (name "a") none], function⟩]
      (.function (name "f") [name "b"] ([] ++ assignment :: [])) := .block block
  have occurs : Occurs program enclosures ⟨true, name "a", some 9⟩ :=
    ⟨assignment, .function body, .assign (name "a") (.variable (name "b") (some 8)) (some 9),
      List.mem_singleton_self _, List.mem_append_right _ (List.mem_singleton_self _)⟩
  have fresh (number : Nat) (_ : 7 ≤ number) (_ : number < (Counted.parse 7 tokens).2) :
      empty number = none := rfl
  have distance : Enclosure.depth? enclosures (name "a").lexeme = some 1 := by decide
  obtain ⟨number, carried, -, -, depth⟩ := recorded enclosures _ occurs
  obtain rfl := Option.some.inj carried
  rw [distance, Option.some_or] at depth
  refine ⟨occurs, depth, fresh, (read fresh).trans ?_⟩
  rw [unbound]
  simp only [name]
  cbv

end Program

end LoxLang
