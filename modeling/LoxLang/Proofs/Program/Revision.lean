import Mathlib
import LoxLang.Binding
import LoxLang.Program.Occurrence

/-!
# Revising trees

A revision gives the tokens of a tree other lines and its occurrences other hops.  It leaves alone
what decides how a program behaves: the shape of the tree, the names and the literals.

* `Revision` — a change of lines and a change of hops.
* `Expr.revised`, `Stmt.revised` — a revised tree; `Token.revised`, `Occurrence.revised`.
* **`Stmt.revised_comp`** — one revision after another is a revision.
* **`Stmt.occurrences_revised`**, **`Stmt.mistakes_revised`** — the occurrences and the mistakes of a
  revised tree are the revised ones.
-/

namespace LoxLang

/-- A change of lines and of hops. -/
@[ext]
structure Revision where
  line : Nat → Nat
  hops : Option Nat → Option Nat

namespace Revision

/-- The revision that changes nothing. -/
def same : Revision := ⟨id, id⟩

/-- One revision after another. -/
def comp (second first : Revision) : Revision :=
  ⟨second.line ∘ first.line, second.hops ∘ first.hops⟩

end Revision

/-- A token on another line. -/
def Token.revised (r : Revision) (token : Token) : Token := { token with line := r.line token.line }

@[simp] lemma Token.lexeme_revised (r : Revision) (token : Token) :
    (token.revised r).lexeme = token.lexeme := rfl

@[simp] lemma Token.kind_revised (r : Revision) (token : Token) :
    (token.revised r).kind = token.kind := rfl

@[simp] lemma Token.line_revised (r : Revision) (token : Token) :
    (token.revised r).line = r.line token.line := rfl

/-- A revised occurrence. -/
def Occurrence.revised (r : Revision) (occurrence : Occurrence) : Occurrence :=
  ⟨occurrence.assigned, occurrence.name.revised r, r.hops occurrence.hops⟩

/-! ## Trees -/

mutual

/-- A revised expression. -/
def Expr.revised (r : Revision) : Expr → Expr
  | .literal value => .literal value
  | .group inner => .group (inner.revised r)
  | .unary operator operand => .unary (operator.revised r) (operand.revised r)
  | .binary left operator right => .binary (left.revised r) (operator.revised r) (right.revised r)
  | .logical left operator right =>
    .logical (left.revised r) (operator.revised r) (right.revised r)
  | .variable name hops => .variable (name.revised r) (r.hops hops)
  | .assign name value hops => .assign (name.revised r) (value.revised r) (r.hops hops)
  | .call callee paren arguments =>
    .call (callee.revised r) (paren.revised r) (Expr.revisedAll r arguments)

/-- Revised arguments. -/
def Expr.revisedAll (r : Revision) : List Expr → List Expr
  | [] => []
  | first :: others => first.revised r :: Expr.revisedAll r others

end

mutual

/-- A revised statement. -/
def Stmt.revised (r : Revision) : Stmt → Stmt
  | .expression value => .expression (value.revised r)
  | .print value => .print (value.revised r)
  | .variable name initializer =>
    .variable (name.revised r) (initializer.map (Expr.revised r))
  | .block body => .block (Stmt.revisedAll r body)
  | .branch condition consequent alternative =>
    .branch (condition.revised r) (consequent.revised r) (Stmt.revised? r alternative)
  | .loop condition body => .loop (condition.revised r) (body.revised r)
  | .function name parameters body =>
    .function (name.revised r) (parameters.map (Token.revised r)) (Stmt.revisedAll r body)
  | .return_ keyword value => .return_ (keyword.revised r) (value.map (Expr.revised r))

/-- Revised statements. -/
def Stmt.revisedAll (r : Revision) : List Stmt → List Stmt
  | [] => []
  | first :: others => first.revised r :: Stmt.revisedAll r others

/-- A revised statement that may be missing. -/
def Stmt.revised? (r : Revision) : Option Stmt → Option Stmt
  | none => none
  | some stmt => some (stmt.revised r)

end

/-! ## One revision after another -/

section

variable (second first : Revision)

@[simp] lemma Token.revised_comp (token : Token) :
    token.revised (second.comp first) = (token.revised first).revised second := rfl

mutual

lemma Expr.revised_comp : ∀ value : Expr,
    value.revised (second.comp first) = (value.revised first).revised second
  | .literal _ => rfl
  | .group inner => by simp only [Expr.revised, Expr.revised_comp inner]
  | .unary _ operand => by
      simp only [Expr.revised, Token.revised_comp, Expr.revised_comp operand]
  | .binary left _ right => by
      simp only [Expr.revised, Token.revised_comp, Expr.revised_comp left, Expr.revised_comp right]
  | .logical left _ right => by
      simp only [Expr.revised, Token.revised_comp, Expr.revised_comp left, Expr.revised_comp right]
  | .variable _ _ => rfl
  | .assign _ value _ => by
      simp only [Expr.revised, Token.revised_comp, Expr.revised_comp value]
      rfl
  | .call callee _ arguments => by
      simp only [Expr.revised, Token.revised_comp, Expr.revised_comp callee,
        Expr.revisedAll_comp arguments]

lemma Expr.revisedAll_comp : ∀ values : List Expr,
    Expr.revisedAll (second.comp first) values =
      Expr.revisedAll second (Expr.revisedAll first values)
  | [] => rfl
  | value :: others => by
      simp only [Expr.revisedAll, Expr.revised_comp value, Expr.revisedAll_comp others]

end

lemma Expr.map_revised_comp (value : Option Expr) :
    value.map (Expr.revised (second.comp first)) =
      (value.map (Expr.revised first)).map (Expr.revised second) := by
  cases value with
  | none => rfl
  | some value => simp only [Option.map_some, Expr.revised_comp]

mutual

lemma Stmt.revised_comp : ∀ stmt : Stmt,
    stmt.revised (second.comp first) = (stmt.revised first).revised second
  | .expression value => by simp only [Stmt.revised, Expr.revised_comp]
  | .print value => by simp only [Stmt.revised, Expr.revised_comp]
  | .variable _ initializer => by
      simp only [Stmt.revised, Token.revised_comp, Expr.map_revised_comp]
  | .block body => by simp only [Stmt.revised, Stmt.revisedAll_comp body]
  | .branch condition consequent alternative => by
      simp only [Stmt.revised, Expr.revised_comp, Stmt.revised_comp consequent,
        Stmt.revised?_comp alternative]
  | .loop condition body => by simp only [Stmt.revised, Expr.revised_comp, Stmt.revised_comp body]
  | .function _ parameters body => by
      simp only [Stmt.revised, Token.revised_comp, Stmt.revisedAll_comp body, List.map_map]
      rfl
  | .return_ _ value => by simp only [Stmt.revised, Token.revised_comp, Expr.map_revised_comp]

lemma Stmt.revisedAll_comp : ∀ stmts : List Stmt,
    Stmt.revisedAll (second.comp first) stmts =
      Stmt.revisedAll second (Stmt.revisedAll first stmts)
  | [] => rfl
  | stmt :: others => by
      simp only [Stmt.revisedAll, Stmt.revised_comp stmt, Stmt.revisedAll_comp others]

lemma Stmt.revised?_comp : ∀ stmt : Option Stmt,
    Stmt.revised? (second.comp first) stmt = Stmt.revised? second (Stmt.revised? first stmt)
  | none => rfl
  | some stmt => by simp only [Stmt.revised?, Stmt.revised_comp stmt]

end

end

/-! ## Occurrences -/

section

variable (r : Revision)

mutual

lemma Expr.occurrences_revised : ∀ value : Expr,
    (value.revised r).occurrences = value.occurrences.map (Occurrence.revised r)
  | .literal _ => rfl
  | .group inner => Expr.occurrences_revised inner
  | .unary _ operand => Expr.occurrences_revised operand
  | .binary left _ right => by
      simp only [Expr.revised, Expr.occurrences, List.map_append, Expr.occurrences_revised left,
        Expr.occurrences_revised right]
  | .logical left _ right => by
      simp only [Expr.revised, Expr.occurrences, List.map_append, Expr.occurrences_revised left,
        Expr.occurrences_revised right]
  | .variable _ _ => rfl
  | .assign _ value _ => by
      simp only [Expr.revised, Expr.occurrences, List.map_append, Expr.occurrences_revised value]
      rfl
  | .call callee _ arguments => by
      simp only [Expr.revised, Expr.occurrences, List.map_append, Expr.occurrences_revised callee,
        Expr.occurrencesAll_revised arguments]

lemma Expr.occurrencesAll_revised : ∀ values : List Expr,
    Expr.occurrencesAll (Expr.revisedAll r values) =
      (Expr.occurrencesAll values).map (Occurrence.revised r)
  | [] => rfl
  | value :: others => by
      simp only [Expr.revisedAll, Expr.occurrencesAll, List.map_append,
        Expr.occurrences_revised value, Expr.occurrencesAll_revised others]

end

lemma Expr.occurrences?_revised (value : Option Expr) :
    Expr.occurrences? (value.map (Expr.revised r)) =
      (Expr.occurrences? value).map (Occurrence.revised r) := by
  cases value with
  | none => rfl
  | some value => exact value.occurrences_revised r

mutual

/-- **The occurrences of a revised statement are the revised ones.** -/
theorem Stmt.occurrences_revised : ∀ stmt : Stmt,
    (stmt.revised r).occurrences = stmt.occurrences.map (Occurrence.revised r)
  | .expression value => value.occurrences_revised r
  | .print value => value.occurrences_revised r
  | .variable _ initializer => Expr.occurrences?_revised r initializer
  | .block body => Stmt.occurrencesAll_revised body
  | .branch condition consequent alternative => by
      simp only [Stmt.revised, Stmt.occurrences, List.map_append, Expr.occurrences_revised,
        Stmt.occurrences_revised consequent, Stmt.occurrences?_revised alternative]
  | .loop condition body => by
      simp only [Stmt.revised, Stmt.occurrences, List.map_append, Expr.occurrences_revised,
        Stmt.occurrences_revised body]
  | .function _ _ body => Stmt.occurrencesAll_revised body
  | .return_ _ value => Expr.occurrences?_revised r value

lemma Stmt.occurrencesAll_revised : ∀ stmts : List Stmt,
    Stmt.occurrencesAll (Stmt.revisedAll r stmts) =
      (Stmt.occurrencesAll stmts).map (Occurrence.revised r)
  | [] => rfl
  | stmt :: others => by
      simp only [Stmt.revisedAll, Stmt.occurrencesAll, List.map_append,
        Stmt.occurrences_revised stmt, Stmt.occurrencesAll_revised others]

lemma Stmt.occurrences?_revised : ∀ stmt : Option Stmt,
    Stmt.occurrences? (Stmt.revised? r stmt) =
      (Stmt.occurrences? stmt).map (Occurrence.revised r)
  | none => rfl
  | some stmt => Stmt.occurrences_revised stmt

end

/-! ## Trees that a revision leaves alone

With every line kept and the hops of every occurrence too, nothing of a tree changes.
-/

/-- The revision keeps the hops of occurrences. -/
def Revision.Keeps (occurrences : List Occurrence) : Prop :=
  ∀ occurrence ∈ occurrences, r.hops occurrence.hops = occurrence.hops

@[simp] lemma Revision.keeps_append (left right : List Occurrence) :
    r.Keeps (left ++ right) ↔ r.Keeps left ∧ r.Keeps right := List.forall_mem_append

variable {r}

lemma Token.revised_eq_self (lines : r.line = id) (token : Token) : token.revised r = token := by
  rw [Token.revised, lines]
  rfl

lemma Token.map_revised_eq_self (lines : r.line = id) (tokens : List Token) :
    tokens.map (Token.revised r) = tokens :=
  (List.map_congr_left fun token _ => token.revised_eq_self lines).trans (List.map_id tokens)

mutual

lemma Expr.revised_eq_self (lines : r.line = id) : ∀ value : Expr,
    r.Keeps value.occurrences → value.revised r = value
  | .literal _, _ => rfl
  | .group inner, kept => by rw [Expr.revised, Expr.revised_eq_self lines inner kept]
  | .unary _ operand, kept => by
      rw [Expr.revised, Token.revised_eq_self lines, Expr.revised_eq_self lines operand kept]
  | .binary left _ right, kept => by
      rw [Expr.occurrences, Revision.keeps_append] at kept
      rw [Expr.revised, Token.revised_eq_self lines, Expr.revised_eq_self lines left kept.1,
        Expr.revised_eq_self lines right kept.2]
  | .logical left _ right, kept => by
      rw [Expr.occurrences, Revision.keeps_append] at kept
      rw [Expr.revised, Token.revised_eq_self lines, Expr.revised_eq_self lines left kept.1,
        Expr.revised_eq_self lines right kept.2]
  | .variable _ _, kept => by
      rw [Expr.revised, Token.revised_eq_self lines, kept _ (List.mem_singleton_self _)]
  | .assign _ value _, kept => by
      rw [Expr.occurrences, Revision.keeps_append] at kept
      rw [Expr.revised, Token.revised_eq_self lines, Expr.revised_eq_self lines value kept.1,
        kept.2 _ (List.mem_singleton_self _)]
  | .call callee _ arguments, kept => by
      rw [Expr.occurrences, Revision.keeps_append] at kept
      rw [Expr.revised, Token.revised_eq_self lines, Expr.revised_eq_self lines callee kept.1,
        Expr.revisedAll_eq_self lines arguments kept.2]

lemma Expr.revisedAll_eq_self (lines : r.line = id) : ∀ values : List Expr,
    r.Keeps (Expr.occurrencesAll values) → Expr.revisedAll r values = values
  | [], _ => rfl
  | value :: others, kept => by
      rw [Expr.occurrencesAll, Revision.keeps_append] at kept
      rw [Expr.revisedAll, Expr.revised_eq_self lines value kept.1,
        Expr.revisedAll_eq_self lines others kept.2]

end

lemma Expr.map_revised_eq_self (lines : r.line = id) (value : Option Expr)
    (kept : r.Keeps (Expr.occurrences? value)) : value.map (Expr.revised r) = value := by
  cases value with
  | none => rfl
  | some value => exact congrArg some (value.revised_eq_self lines kept)

mutual

lemma Stmt.revised_eq_self (lines : r.line = id) : ∀ stmt : Stmt,
    r.Keeps stmt.occurrences → stmt.revised r = stmt
  | .expression value, kept => congrArg Stmt.expression (value.revised_eq_self lines kept)
  | .print value, kept => congrArg Stmt.print (value.revised_eq_self lines kept)
  | .variable _ initializer, kept => by
      rw [Stmt.revised, Token.revised_eq_self lines, Expr.map_revised_eq_self lines initializer kept]
  | .block body, kept => congrArg Stmt.block (Stmt.revisedAll_eq_self lines body kept)
  | .branch condition consequent alternative, kept => by
      rw [Stmt.occurrences, Revision.keeps_append, Revision.keeps_append] at kept
      rw [Stmt.revised, Expr.revised_eq_self lines condition kept.1.1,
        Stmt.revised_eq_self lines consequent kept.1.2,
        Stmt.revised?_eq_self lines alternative kept.2]
  | .loop condition body, kept => by
      rw [Stmt.occurrences, Revision.keeps_append] at kept
      rw [Stmt.revised, Expr.revised_eq_self lines condition kept.1,
        Stmt.revised_eq_self lines body kept.2]
  | .function _ parameters body, kept => by
      rw [Stmt.revised, Token.revised_eq_self lines, Token.map_revised_eq_self lines,
        Stmt.revisedAll_eq_self lines body kept]
  | .return_ _ value, kept => by
      rw [Stmt.revised, Token.revised_eq_self lines, Expr.map_revised_eq_self lines value kept]

lemma Stmt.revisedAll_eq_self (lines : r.line = id) : ∀ stmts : List Stmt,
    r.Keeps (Stmt.occurrencesAll stmts) → Stmt.revisedAll r stmts = stmts
  | [], _ => rfl
  | stmt :: others, kept => by
      rw [Stmt.occurrencesAll, Revision.keeps_append] at kept
      rw [Stmt.revisedAll, Stmt.revised_eq_self lines stmt kept.1,
        Stmt.revisedAll_eq_self lines others kept.2]

lemma Stmt.revised?_eq_self (lines : r.line = id) : ∀ stmt : Option Stmt,
    r.Keeps (Stmt.occurrences? stmt) → Stmt.revised? r stmt = stmt
  | none, _ => rfl
  | some stmt, kept => congrArg some (Stmt.revised_eq_self lines stmt kept)

end

/-- A revision that leaves statements alone keeps the hops in them. -/
lemma Stmt.keeps_of_revisedAll {stmts : List Stmt} (same : Stmt.revisedAll r stmts = stmts) :
    r.Keeps (Stmt.occurrencesAll stmts) := by
  have each := Stmt.occurrencesAll_revised r stmts
  rw [same] at each
  intro occurrence mem
  have fixed := List.map_inj_left.mp (each.symm.trans (List.map_id _).symm) occurrence mem
  exact congrArg Occurrence.hops fixed

variable (r)

/-! ## What is declared -/

mutual

lemma Stmt.declared_revised : ∀ stmt : Stmt,
    (stmt.revised r).declared = stmt.declared.map (Token.revised r)
  | .variable _ _ => rfl
  | .function _ _ _ => rfl
  | .branch _ consequent alternative => by
      simp only [Stmt.revised, Stmt.declared, List.map_append, Stmt.declared_revised consequent,
        Stmt.declared?_revised alternative]
  | .loop _ body => Stmt.declared_revised body
  | .expression _ => rfl
  | .print _ => rfl
  | .block _ => rfl
  | .return_ _ _ => rfl

lemma Stmt.declared?_revised : ∀ stmt : Option Stmt,
    Stmt.declared? (Stmt.revised? r stmt) = (Stmt.declared? stmt).map (Token.revised r)
  | none => rfl
  | some stmt => Stmt.declared_revised stmt

end

namespace Frames

lemma declare_revised (frames : Frames) (name : Token) :
    frames.declare (name.revised r) = frames.declare name := rfl

lemma foldl_declare_revised : ∀ (names : List Token) (frames : Frames),
    (names.map (Token.revised r)).foldl declare frames = names.foldl declare frames
  | [], _ => rfl
  | name :: others, frames => foldl_declare_revised others (frames.declare name)

@[simp] lemma behind_revised (frames : Frames) (stmt : Stmt) :
    frames.behind (stmt.revised r) = frames.behind stmt := by
  rw [behind, behind, Stmt.declared_revised, foldl_declare_revised]

@[simp] lemma enter_revised (frames : Frames) (parameters : List Token) :
    frames.enter (parameters.map (Token.revised r)) = frames.enter parameters :=
  foldl_declare_revised r parameters ([] :: frames)

end Frames

/-! ## Mistakes -/

/-- A scope error at a revised token. -/
def ScopeReport.revised (report : ScopeReport) : ScopeReport :=
  ⟨report.error, report.place.revised r⟩

mutual

lemma Expr.mistakes_revised (unready : Option String) : ∀ value : Expr,
    (value.revised r).mistakes unready = (value.mistakes unready).map (ScopeReport.revised r)
  | .literal _ => rfl
  | .group inner => Expr.mistakes_revised unready inner
  | .unary _ operand => Expr.mistakes_revised unready operand
  | .binary left _ right => by
      simp only [Expr.revised, Expr.mistakes, List.map_append, Expr.mistakes_revised unready left,
        Expr.mistakes_revised unready right]
  | .logical left _ right => by
      simp only [Expr.revised, Expr.mistakes, List.map_append, Expr.mistakes_revised unready left,
        Expr.mistakes_revised unready right]
  | .variable name _ => by
      by_cases same : unready = some name.lexeme
      · simp [Expr.revised, Expr.mistakes, same, ScopeReport.revised]
      · simp [Expr.revised, Expr.mistakes, same]
  | .assign _ value _ => Expr.mistakes_revised unready value
  | .call callee _ arguments => by
      simp only [Expr.revised, Expr.mistakes, List.map_append, Expr.mistakes_revised unready callee,
        Expr.mistakesAll_revised unready arguments]

lemma Expr.mistakesAll_revised (unready : Option String) : ∀ values : List Expr,
    Expr.mistakesAll unready (Expr.revisedAll r values) =
      (Expr.mistakesAll unready values).map (ScopeReport.revised r)
  | [] => rfl
  | value :: others => by
      simp only [Expr.revisedAll, Expr.mistakesAll, List.map_append,
        Expr.mistakes_revised unready value, Expr.mistakesAll_revised unready others]

end

lemma Expr.mistakes?_revised (unready : Option String) (value : Option Expr) :
    Expr.mistakes? unready (value.map (Expr.revised r)) =
      (Expr.mistakes? unready value).map (ScopeReport.revised r) := by
  cases value with
  | none => rfl
  | some value => exact value.mistakes_revised r unready

namespace Frames

lemma declaredTwice_revised (frames : Frames) (name : Token) :
    frames.declaredTwice (name.revised r) =
      (frames.declaredTwice name).map (ScopeReport.revised r) := by
  have declared : frames.declares (name.revised r) = frames.declares name := rfl
  rw [declaredTwice, declaredTwice, declared]
  split_ifs
  · rfl
  · rfl

lemma repeated_revised : ∀ (parameters : List Token) (frames : Frames),
    frames.repeated (parameters.map (Token.revised r)) =
      (frames.repeated parameters).map (ScopeReport.revised r)
  | [], _ => rfl
  | name :: others, frames => by
      simp only [List.map_cons, repeated, List.map_append, declaredTwice_revised,
        declare_revised, repeated_revised others]

end Frames

mutual

/-- **The mistakes in a revised statement are the same, at the revised tokens.** -/
theorem Stmt.mistakes_revised : ∀ (stmt : Stmt) (frames : Frames) (inFunction : Bool),
    (stmt.revised r).mistakes frames inFunction =
      (stmt.mistakes frames inFunction).map (ScopeReport.revised r)
  | .expression value, _, _ => value.mistakes_revised r none
  | .print value, _, _ => value.mistakes_revised r none
  | .variable name initializer, frames, _ => by
      simp only [Stmt.revised, Stmt.mistakes, List.map_append, Frames.declaredTwice_revised,
        ← Expr.mistakes?_revised]
      rfl
  | .block body, frames, inFunction => Stmt.mistakesAll_revised body ([] :: frames) inFunction
  | .branch condition consequent alternative, frames, inFunction => by
      simp only [Stmt.revised, Stmt.mistakes, List.map_append, Expr.mistakes_revised,
        Frames.behind_revised, Stmt.mistakes_revised consequent, Stmt.mistakes?_revised alternative]
  | .loop condition body, frames, inFunction => by
      simp only [Stmt.revised, Stmt.mistakes, List.map_append, Expr.mistakes_revised,
        Stmt.mistakes_revised body]
  | .function name parameters body, frames, inFunction => by
      simp only [Stmt.revised, Stmt.mistakes, List.map_append, Frames.declaredTwice_revised,
        Frames.declare_revised, Frames.repeated_revised, Frames.enter_revised,
        Stmt.mistakesAll_revised body]
  | .return_ keyword value, frames, inFunction => by
      simp only [Stmt.revised, Stmt.mistakes, List.map_append, Expr.mistakes?_revised]
      cases inFunction with
      | true => rfl
      | false => rfl

lemma Stmt.mistakesAll_revised : ∀ (stmts : List Stmt) (frames : Frames) (inFunction : Bool),
    Stmt.mistakesAll frames inFunction (Stmt.revisedAll r stmts) =
      (Stmt.mistakesAll frames inFunction stmts).map (ScopeReport.revised r)
  | [], _, _ => rfl
  | stmt :: others, frames, inFunction => by
      simp only [Stmt.revisedAll, Stmt.mistakesAll, List.map_append, Frames.behind_revised,
        Stmt.mistakes_revised stmt, Stmt.mistakesAll_revised others]

lemma Stmt.mistakes?_revised : ∀ (stmt : Option Stmt) (frames : Frames) (inFunction : Bool),
    Stmt.mistakes? frames inFunction (Stmt.revised? r stmt) =
      (Stmt.mistakes? frames inFunction stmt).map (ScopeReport.revised r)
  | none, _, _ => rfl
  | some stmt, frames, inFunction => Stmt.mistakes_revised stmt frames inFunction

end

end

end LoxLang
