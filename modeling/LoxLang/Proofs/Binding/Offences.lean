import LoxLang.Proofs.Binding.Walk
import Mathlib

/-!
# Offences

Which tokens of a program are wrong for the way in which names are used can be told from the program
text: the names that are declared once more in a scope, the reads of a new local variable in its own
initializer, and the `return`s outside of functions.  These are the mistakes that binding finds.

* `Offends` — the three offences, as facts about the ways to statements.
* `Expr.mem_mistakes_iff`, `Frames.mem_repeated_iff`, `Enclosure.mem_declaredTwice_iff` — the mistakes
  of the parts of a statement.
* **`Program.mem_mistakes_iff`** — the mistakes of a program are its offences.
-/

namespace LoxLang

/-- A name that the innermost of some enclosures declares in front of the place already. -/
def Enclosure.Taken (enclosures : List Enclosure) (name : Token) : Prop :=
  ∃ innermost ∈ enclosures.head?, ∃ earlier ∈ innermost.earlier, earlier.lexeme = name.lexeme

/-- **The offences in a program**, with the tokens they stand at. -/
inductive Offends (program : List Stmt) : ScopeError → Token → Prop where
  /-- A variable or function with a name that its scope has already; the globals are no scope. -/
  | redeclared {enclosures stmt name} :
      Within program enclosures stmt → stmt.declaration? = some name →
      Enclosure.Taken enclosures name → Offends program .declaredTwice name
  /-- A parameter with the name of one before it. -/
  | repeated {enclosures function before name after body earlier} :
      Within program enclosures (.function function (before ++ name :: after) body) →
      earlier ∈ before → earlier.lexeme = name.lexeme → Offends program .declaredTwice name
  /-- A read of a local variable in its initializer, unless its declaration is an offence itself. -/
  | ownInitializer {enclosures name initializer occurrence} :
      Within program enclosures (.variable name (some initializer)) → enclosures ≠ [] →
      ¬ Enclosure.Taken enclosures name → occurrence ∈ initializer.occurrences →
      occurrence.assigned = false → occurrence.name.lexeme = name.lexeme →
      Offends program .ownInitializer occurrence.name
  /-- A `return` outside of all functions. -/
  | returnOutside {enclosures keyword value} :
      Within program enclosures (.return_ keyword value) →
      Enclosure.inFunction enclosures = false → Offends program .returnOutside keyword

/-! ## The mistakes of the parts -/

lemma Expr.mem_mistakes_iff {unready : Option String} {value : Expr} {report : ScopeReport} :
    report ∈ value.mistakes unready ↔ ∃ occurrence ∈ value.occurrences,
      occurrence.assigned = false ∧ unready = some occurrence.name.lexeme
        ∧ report = ⟨.ownInitializer, occurrence.name⟩ := by
  rw [Expr.mistakes_eq, List.mem_filterMap]
  refine exists_congr fun occurrence => and_congr_right fun _ => ?_
  rw [Occurrence.mistake?]
  split_ifs with read
  · exact ⟨fun same => ⟨read.1, read.2, (Option.some.inj same).symm⟩,
      fun found => congrArg some found.2.2.symm⟩
  · exact iff_of_false (by simp) fun found => read ⟨found.1, found.2.1⟩

/-- A parameter is told of if its name is among names given before or that of a parameter before it. -/
lemma Frames.mem_repeated_iff {report : ScopeReport} {others : Frames} :
    ∀ {parameters : List Token} {names : List String},
    report ∈ Frames.repeated (names :: others) parameters ↔ ∃ before name after,
      parameters = before ++ name :: after
        ∧ (name.lexeme ∈ names ∨ ∃ earlier ∈ before, earlier.lexeme = name.lexeme)
        ∧ report = ⟨.declaredTwice, name⟩
  | [], names => by simp [repeated]
  | first :: parameters, names => by
      have here : report ∈ Frames.declaredTwice (names :: others) first
          ↔ first.lexeme ∈ names ∧ report = ⟨.declaredTwice, first⟩ := by
        simp [declaredTwice, declares]
      rw [repeated, List.mem_append, here, declare, mem_repeated_iff]
      constructor
      · rintro (⟨listed, rfl⟩ | ⟨before, name, after, rfl, twice, rfl⟩)
        · exact ⟨[], first, parameters, rfl, Or.inl listed, rfl⟩
        · refine ⟨first :: before, name, after, rfl, ?_, rfl⟩
          rw [List.mem_cons, or_assoc] at twice
          rcases twice with same | listed | ⟨earlier, listed, same⟩
          · exact Or.inr ⟨first, List.mem_cons_self, same.symm⟩
          · exact Or.inl listed
          · exact Or.inr ⟨earlier, List.mem_cons_of_mem _ listed, same⟩
      · rintro ⟨_ | ⟨_, before⟩, name, after, parts, twice, rfl⟩
        · obtain ⟨rfl, rfl⟩ := List.cons.inj parts
          exact Or.inl ⟨twice.resolve_right (by simp), rfl⟩
        · obtain ⟨rfl, rfl⟩ := List.cons.inj parts
          refine Or.inr ⟨before, name, after, rfl, ?_, rfl⟩
          rcases twice with listed | ⟨earlier, listed, same⟩
          · exact Or.inl (List.mem_cons_of_mem _ listed)
          · rcases List.mem_cons.mp listed with rfl | listed
            · exact Or.inl (same ▸ List.mem_cons_self)
            · exact Or.inr ⟨earlier, listed, same⟩

namespace Enclosure

variable {enclosures : List Enclosure} {name : Token}

/-- The frames declare what the innermost enclosure does in front of the place. -/
lemma declares_framesBefore_iff : (framesBefore enclosures).declares name ↔ Taken enclosures name := by
  cases enclosures with
  | nil => simp [framesBefore, Frames.declares, Taken]
  | cons innermost others => simp [framesBefore, Frames.declares, Taken]

lemma mem_declaredTwice_iff {report : ScopeReport} :
    report ∈ (framesBefore enclosures).declaredTwice name
      ↔ Taken enclosures name ∧ report = ⟨.declaredTwice, name⟩ := by
  rw [Frames.declaredTwice, ← declares_framesBefore_iff]
  split_ifs with twice <;> simp [twice]

/-- A name is not ready in its initializer if it is local and new in its scope. -/
lemma unready?_framesBefore_iff {other : String} :
    (framesBefore enclosures).unready? name = some other
      ↔ enclosures ≠ [] ∧ ¬ Taken enclosures name ∧ other = name.lexeme := by
  have isGlobal : (framesBefore enclosures).isEmpty ↔ enclosures = [] := by
    cases enclosures <;> simp [framesBefore]
  rw [Frames.unready?, ← declares_framesBefore_iff]
  split_ifs with ready
  · rw [Bool.or_eq_true, isGlobal] at ready
    exact iff_of_false (by simp) fun found => ready.elim found.1 found.2.1
  · rw [Bool.or_eq_true, isGlobal, not_or] at ready
    exact ⟨fun same => ⟨ready.1, ready.2, (Option.some.inj same).symm⟩,
      fun found => congrArg some found.2.2.symm⟩

end Enclosure

/-! ## The mistakes of a program -/

section

variable {program : List Stmt} {enclosures : List Enclosure} {error : ScopeError} {place : Token}

/-- The mistakes of a statement where the walk meets it are offences. -/
lemma Within.offends_of_mem {stmt : Stmt} (within : Within program enclosures stmt)
    (found : ⟨error, place⟩ ∈ Spot.mistakes ⟨Enclosure.framesBefore enclosures,
      Enclosure.inFunction enclosures, stmt⟩) : Offends program error place := by
  cases stmt with
  | expression | print | block | branch | loop => cases found
  | «variable» name initializer =>
      rcases List.mem_append.mp found with twice | read
      · obtain ⟨taken, same⟩ := Enclosure.mem_declaredTwice_iff.mp twice
        cases same
        exact .redeclared within rfl taken
      · cases initializer with
        | none => cases read
        | some value =>
            obtain ⟨occurrence, listed, isRead, unready, same⟩ := Expr.mem_mistakes_iff.mp read
            obtain ⟨inside, new, own⟩ := Enclosure.unready?_framesBefore_iff.mp unready
            cases same
            exact .ownInitializer within inside new listed isRead own
  | function name parameters body =>
      rcases List.mem_append.mp found with twice | listed
      · obtain ⟨taken, same⟩ := Enclosure.mem_declaredTwice_iff.mp twice
        cases same
        exact .redeclared within rfl taken
      · obtain ⟨before, parameter, after, rfl, twice, same⟩ := Frames.mem_repeated_iff.mp listed
        cases same
        obtain ⟨earlier, listed, alike⟩ := twice.resolve_left List.not_mem_nil
        exact .repeated within listed alike
  | return_ keyword value =>
      rw [Spot.mistakes] at found
      split_ifs at found with inside
      · cases found
      · cases List.mem_singleton.mp found
        exact .returnOutside within (Bool.eq_false_of_not_eq_true inside)

/-- Every offence is a mistake of a statement at a place. -/
lemma Offends.exists_mem (offends : Offends program error place) : ∃ enclosures stmt,
    Within program enclosures stmt ∧ ⟨error, place⟩ ∈ Spot.mistakes
      ⟨Enclosure.framesBefore enclosures, Enclosure.inFunction enclosures, stmt⟩ := by
  cases offends with
  | @redeclared enclosures stmt name within declares taken =>
      have twice := Enclosure.mem_declaredTwice_iff.mpr ⟨taken, rfl⟩
      refine ⟨enclosures, stmt, within, ?_⟩
      cases stmt with
      | «variable» | function =>
          cases declares
          exact List.mem_append_left _ twice
      | _ => cases declares
  | repeated within listed same =>
      exact ⟨_, _, within, List.mem_append_right _
        (Frames.mem_repeated_iff.mpr ⟨_, _, _, rfl, Or.inr ⟨_, listed, same⟩, rfl⟩)⟩
  | ownInitializer within inside new listed isRead own =>
      exact ⟨_, _, within, List.mem_append_right _ (Expr.mem_mistakes_iff.mpr
        ⟨_, listed, isRead, Enclosure.unready?_framesBefore_iff.mpr ⟨inside, new, own⟩, rfl⟩)⟩
  | returnOutside within outside => exact ⟨_, _, within, by simp [Spot.mistakes, outside]⟩

/-- **The mistakes of a program are its offences.** -/
theorem Program.mem_mistakes_iff (ordered : Stmt.OrderlyAll program) :
    ⟨error, place⟩ ∈ Program.mistakes program ↔ Offends program error place := by
  rw [Program.mistakes, Stmt.mistakesAll_walk, List.mem_flatMap]
  constructor
  · rintro ⟨⟨frames, inFunction, stmt⟩, visited, found⟩
    obtain ⟨enclosures, within, rfl, rfl⟩ := (Stmt.mem_walk_iff ordered).mp visited
    exact within.offends_of_mem found
  · intro offends
    obtain ⟨enclosures, stmt, within, found⟩ := offends.exists_mem
    exact ⟨_, (Stmt.mem_walk_iff ordered).mpr ⟨enclosures, within, rfl, rfl⟩, found⟩

end

end LoxLang
