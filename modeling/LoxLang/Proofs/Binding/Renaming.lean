import LoxLang.Proofs.Binding.Declared

/-!
# Renaming one local variable

A local variable or parameter is known by the block or function whose scope it belongs to and by its
name there.  Renaming it touches its declaration and the occurrences that binding leads to that
scope, and nothing else: neither other variables of the same name nor functions.

* `Renaming` — which variable to rename, and the new name.
* **`Stmt.renamed`** and **`Program.renamed`** — the tree with the new name.
* `Regions.renamed` — the regions around a place of the renamed tree.
* **`Regions.hops?_renamed`** — the new name is found as far out as the old one was.
-/

namespace LoxLang

/-- Which variable to rename: the place of the block or function, the name, and the new name. -/
structure Renaming where
  site : Place
  old : String
  new : String

namespace Renaming

/-- The new name of what has a name in a scope; the globals have no place. -/
def named (r : Renaming) (site? : Option Place) (name : String) : String :=
  if site? = some r.site ∧ name = r.old then r.new else name

/-- A token with the new name. -/
def token (r : Renaming) (site? : Option Place) (token : Token) : Token :=
  { token with lexeme := r.named site? token.lexeme }

end Renaming

namespace Regions

/-- The place of the block or function whose scope a name belongs to; nothing for a global. -/
def site? (regions : Regions) (name : String) : Option Place :=
  (regions.frames.hops? name).bind (regions.sites[·]?)

/-- The regions around a place after a renaming. -/
def renamed (r : Renaming) (regions : Regions) : Regions :=
  regions.map fun region => ⟨region.site, region.names.map (r.named (some region.site))⟩

end Regions

/-! ## Trees with the new name -/

mutual

/-- An expression with the new name. -/
def Expr.renamed (r : Renaming) (regions : Regions) : Expr → Expr
  | .literal value => .literal value
  | .group inner => .group (inner.renamed r regions)
  | .unary operator operand => .unary operator (operand.renamed r regions)
  | .binary left operator right =>
    .binary (left.renamed r regions) operator (right.renamed r regions)
  | .logical left operator right =>
    .logical (left.renamed r regions) operator (right.renamed r regions)
  | .variable name hops => .variable (r.token (regions.site? name.lexeme) name) hops
  | .assign name value hops =>
    .assign (r.token (regions.site? name.lexeme) name) (value.renamed r regions) hops
  | .call callee paren arguments =>
    .call (callee.renamed r regions) paren (Expr.renamedAll r regions arguments)

/-- Arguments with the new name. -/
def Expr.renamedAll (r : Renaming) (regions : Regions) : List Expr → List Expr
  | [] => []
  | first :: others => first.renamed r regions :: Expr.renamedAll r regions others

end

mutual

/-- The statement at a place with the new name. -/
def Stmt.renamed (r : Renaming) (regions : Regions) (place : Place) : Stmt → Stmt
  | .expression value => .expression (value.renamed r regions)
  | .print value => .print (value.renamed r regions)
  | .variable name initializer =>
    .variable (r.token regions.innermost? name)
      (initializer.map (Expr.renamed r (regions.declare name)))
  | .block body => .block (Stmt.renamedAll r (⟨place, []⟩ :: regions) place 0 body)
  | .branch condition consequent alternative =>
    .branch (condition.renamed r regions)
      (consequent.renamed r regions (0 :: place))
      (Stmt.renamed? r (regions.behind consequent) (1 :: place) alternative)
  | .loop condition body =>
    .loop (condition.renamed r regions) (body.renamed r regions (0 :: place))
  | .function name parameters body =>
    .function name (parameters.map (r.token (some place)))
      (Stmt.renamedAll r ((regions.declare name).enter place parameters) place 0 body)
  | .return_ keyword value => .return_ keyword (value.map (Expr.renamed r regions))

/-- The statements of a body, from an index on, with the new name. -/
def Stmt.renamedAll (r : Renaming) (regions : Regions) (place : Place) (index : Nat) :
    List Stmt → List Stmt
  | [] => []
  | first :: others =>
    first.renamed r regions (index :: place)
      :: Stmt.renamedAll r (regions.behind first) place (index + 1) others

/-- A statement that may be missing with the new name. -/
def Stmt.renamed? (r : Renaming) (regions : Regions) (place : Place) :
    Option Stmt → Option Stmt
  | none => none
  | some stmt => some (stmt.renamed r regions place)

end

/-- A program, the first of its session, with the new name. -/
def Program.renamed (r : Renaming) (program : List Stmt) : List Stmt :=
  Stmt.renamedAll r [] [0] 0 program

/-! ## The new name is found where the old one was -/

namespace Renaming

variable {r : Renaming} {site? site?' : Option Place} {name other : String}

@[simp] lemma named_none : r.named none name = name := by
  rw [named, if_neg (by simp)]

/-- Renaming confuses no two names that are not the new one. -/
lemma eq_of_named_eq (notNew : name ≠ r.new) (otherNotNew : other ≠ r.new)
    (same : r.named site? name = r.named site?' other) : name = other := by
  unfold named at same
  split_ifs at same with both other' other'
  · rw [both.2, other'.2]
  · exact absurd same.symm otherNotNew
  · exact absurd same notNew
  · exact same

end Renaming

namespace Regions

variable {r : Renaming} {regions : Regions}

@[simp] lemma sites_renamed : (regions.renamed r).sites = regions.sites := by
  simp [renamed, sites]

lemma hops?_cons (region : Region) (regions : Regions) (name : String) :
    (frames (region :: regions)).hops? name
      = if name ∈ region.names then some 0 else (regions.frames.hops? name).map (· + 1) := by
  simp only [frames_cons, Frames.hops?, List.findIdx?_cons, List.contains_iff_mem]

lemma site?_cons (region : Region) (regions : Regions) (name : String) :
    site? (region :: regions) name
      = if name ∈ region.names then some region.site else regions.site? name := by
  rw [site?, hops?_cons]
  split_ifs with h
  · rfl
  · rw [site?]
    cases regions.frames.hops? name with
    | none => rfl
    | some distance => rfl

/-- **After renaming, a name is found as far out as before.** -/
theorem hops?_renamed (lacks : regions.Lacks r.new) {name : String}
    (notNew : name ≠ r.new) :
    (regions.renamed r).frames.hops? (r.named (regions.site? name) name)
      = regions.frames.hops? name := by
  induction regions with
  | nil => rfl
  | cons region regions ih =>
      rw [Lacks, List.forall_mem_cons] at lacks
      obtain ⟨innermost, lacks⟩ := lacks
      have ih := ih lacks
      rw [renamed, List.map_cons, hops?_cons, hops?_cons, site?_cons]
      by_cases mem : name ∈ region.names
      · rw [if_pos mem, if_pos mem, if_pos (List.mem_map_of_mem mem)]
      · rw [if_neg mem, if_neg mem, if_neg, ← ih]
        · rfl
        · intro becomes
          obtain ⟨other, otherNotNew, eq⟩ := List.mem_map.mp becomes
          have ne : other ≠ r.new := fun h => innermost (h ▸ otherNotNew)
          exact mem (Renaming.eq_of_named_eq ne notNew eq ▸ otherNotNew)

/-! ## Declaring commutes with renaming -/

lemma renamed_declare (name : Token) : (regions.declare name).renamed r
    = (regions.renamed r).declare (r.token regions.innermost? name) := by
  cases regions with
  | nil => rfl
  | cons region regions => rfl

lemma renamed_foldl_declare (names : List Token) : ∀ regions : Regions,
    (names.foldl declare regions).renamed r
      = (names.map (r.token regions.innermost?)).foldl declare (regions.renamed r) := by
  induction names with
  | nil => intro regions; rfl
  | cons name others ih =>
      intro regions
      rw [List.foldl_cons, ih, innermost?_declare, renamed_declare, List.map_cons, List.foldl_cons]

lemma renamed_enter (site : Place) (parameters : List Token) :
    (regions.enter site parameters).renamed r
      = (regions.renamed r).enter site (parameters.map (r.token (some site))) :=
  renamed_foldl_declare parameters (⟨site, []⟩ :: regions)

/-- A name declared in front of a place is declared there after the renaming, too. -/
lemma declares_renamed (lacks : regions.Lacks r.new) {name : Token} (notNew : name.lexeme ≠ r.new)
    (found : regions.frames.declares name = false) :
    (regions.renamed r).frames.declares (r.token regions.innermost? name) = false := by
  cases regions with
  | nil => rfl
  | cons region regions =>
      rw [Lacks, List.forall_mem_cons] at lacks
      have mem : name.lexeme ∉ region.names := by
        simpa [Frames.declares] using found
      have renamed : r.named (some region.site) name.lexeme
          ∉ region.names.map (r.named (some region.site)) := by
        intro found
        obtain ⟨other, otherNotNew, eq⟩ := List.mem_map.mp found
        have ne : other ≠ r.new := fun found => lacks.1 (found ▸ otherNotNew)
        exact mem (Renaming.eq_of_named_eq ne notNew eq ▸ otherNotNew)
      show (region.names.map (r.named (some region.site))).contains
        (r.named (some region.site) name.lexeme) = false
      simpa using renamed

end Regions

/-! ## Occurrences after renaming -/

/-- An occurrence with the new name. -/
def Occurrence.renamed (r : Renaming) (regions : Regions) (occurrence : Occurrence) : Occurrence :=
  { occurrence with name := r.token (regions.site? occurrence.name.lexeme) occurrence.name }

mutual

lemma Expr.occurrences_renamed (r : Renaming) (regions : Regions) : ∀ value : Expr,
    (value.renamed r regions).occurrences = value.occurrences.map (Occurrence.renamed r regions)
  | .literal _ => rfl
  | .group inner => Expr.occurrences_renamed r regions inner
  | .unary _ operand => Expr.occurrences_renamed r regions operand
  | .binary left _ right => by
      simp only [Expr.renamed, Expr.occurrences, List.map_append,
        Expr.occurrences_renamed r regions left, Expr.occurrences_renamed r regions right]
  | .logical left _ right => by
      simp only [Expr.renamed, Expr.occurrences, List.map_append,
        Expr.occurrences_renamed r regions left, Expr.occurrences_renamed r regions right]
  | .variable _ _ => rfl
  | .assign _ value _ => by
      simp only [Expr.renamed, Expr.occurrences, List.map_append,
        Expr.occurrences_renamed r regions value]
      rfl
  | .call callee _ arguments => by
      simp only [Expr.renamed, Expr.occurrences, List.map_append,
        Expr.occurrences_renamed r regions callee,
        Expr.occurrencesAll_renamed r regions arguments]

lemma Expr.occurrencesAll_renamed (r : Renaming) (regions : Regions) : ∀ values : List Expr,
    Expr.occurrencesAll (Expr.renamedAll r regions values)
      = (Expr.occurrencesAll values).map (Occurrence.renamed r regions)
  | [] => rfl
  | first :: others => by
      simp only [Expr.renamedAll, Expr.occurrencesAll, List.map_append,
        Expr.occurrences_renamed r regions first, Expr.occurrencesAll_renamed r regions others]

end

/-- Binding an expression finds the same hops after renaming. -/
lemma Expr.hops_renamed {r : Renaming} {regions : Regions} (lacks : regions.Lacks r.new)
    {value : Expr} (new : r.new ∉ value.names) :
    ((value.renamed r regions).bound (regions.renamed r).frames).occurrences.map Occurrence.hops
      = (value.bound regions.frames).occurrences.map Occurrence.hops := by
  rw [Expr.occurrences_bound, Expr.occurrences_bound, Expr.occurrences_renamed, List.map_map,
    List.map_map, List.map_map]
  refine List.map_congr_left fun occurrence occurs => ?_
  have notNew : occurrence.name.lexeme ≠ r.new := by
    intro h
    exact new (h ▸ List.mem_map_of_mem occurs)
  have hops := Regions.hops?_renamed lacks notNew
  show ((regions.renamed r).frames.hops? (r.named _ occurrence.name.lexeme)).or occurrence.hops = _
  rw [hops]
  rfl

/-! ## Statements after renaming -/

/-- What renaming relies on: the variable is no function, and the new name occurs nowhere. -/
structure Renaming.Clean (r : Renaming) (texts : Nat → List Stmt) : Prop where
  functions : ∀ {regions place name parameters body},
    Stands texts regions place (.one (.function name parameters body)) →
    regions.innermost? = some r.site → name.lexeme ≠ r.old
  names : ∀ {regions place stmt}, Stands texts regions place (.one stmt) → r.new ∉ stmt.names
  lacks : ∀ {regions place code}, Stands texts regions place code → regions.Lacks r.new

section Clean

variable {r : Renaming} {texts : Nat → List Stmt}

/-- Renaming a variable of an accepted program to a name that is nowhere in it is clean. -/
lemma Renaming.clean (accepted : Accepted texts) (declares : Declares texts r.site r.old)
    (new : ∀ step, r.new ∉ Stmt.namesAll (texts step)) : r.Clean texts where
  functions := declares.ne_function accepted
  names := fun stands => (stands.not_mem_names new).1
  lacks := fun stands => (stands.not_mem_names new).2

lemma Renaming.Clean.token_function (clean : r.Clean texts) {regions : Regions} {place : Place}
    {name : Token} {parameters : List Token} {body : List Stmt}
    (stands : Stands texts regions place (.one (.function name parameters body))) :
    r.token regions.innermost? name = name := by
  rw [Renaming.token, Renaming.named, if_neg]
  rintro ⟨site, old⟩
  exact clean.functions stands site old

/-- A renamed statement declares the renamed names. -/
lemma Stmt.declared_renamed (clean : r.Clean texts) {regions : Regions} {place : Place} :
    ∀ stmt : Stmt, Stands texts regions place (.one stmt) →
      (stmt.renamed r regions place).declared = stmt.declared.map (r.token regions.innermost?)
  | .expression _, _ | .print _, _ | .variable _ _, _ | .block _, _ | .return_ _ _, _ => rfl
  | .branch _ consequent alternative, stands => by
      rw [Stmt.renamed, Stmt.declared, Stmt.declared, List.map_append,
        Stmt.declared_renamed clean consequent stands.consequent]
      congr 1
      cases alternative with
      | none => rfl
      | some stmt =>
          have otherNotNew := Stmt.declared_renamed clean stmt stands.alternative
          rw [Regions.innermost?_behind] at otherNotNew
          exact otherNotNew
  | .loop _ body, stands => Stmt.declared_renamed clean body stands.loop
  | .function name _ _, stands => by
      rw [Stmt.renamed, Stmt.declared, Stmt.declared, List.map_singleton,
        clean.token_function stands]

lemma Regions.renamed_behind (clean : r.Clean texts) {regions : Regions} {place : Place}
    {stmt : Stmt} (stands : Stands texts regions place (.one stmt)) :
    (regions.behind stmt).renamed r
      = (regions.renamed r).behind (stmt.renamed r regions place) := by
  rw [behind, behind, renamed_foldl_declare, Stmt.declared_renamed clean stmt stands]

/-! ## Hops after renaming -/

lemma Renaming.Clean.hops_expression (clean : r.Clean texts) {regions around : Regions}
    {place : Place} {stmt : Stmt} (stands : Stands texts around place (.one stmt))
    (lacks : regions.Lacks r.new) (value : Expr) (names : ∀ name ∈ value.names, name ∈ stmt.names) :
    ((value.renamed r regions).bound (regions.renamed r).frames).occurrences.map Occurrence.hops
      = (value.bound regions.frames).occurrences.map Occurrence.hops :=
  Expr.hops_renamed lacks fun h => clean.names stands (names _ h)

mutual

/-- Binding a statement finds the same hops after renaming. -/
lemma Stmt.hops_renamed (clean : r.Clean texts) {regions : Regions} {place : Place} :
    ∀ stmt : Stmt, Stands texts regions place (.one stmt) →
      ((stmt.renamed r regions place).bound (regions.renamed r).frames).occurrences.map
          Occurrence.hops
        = (stmt.bound regions.frames).occurrences.map Occurrence.hops
  | .expression value, stands =>
      clean.hops_expression stands (clean.lacks stands) value fun _ h => h
  | .print value, stands =>
      clean.hops_expression stands (clean.lacks stands) value fun _ h => h
  | .variable name none, _ => rfl
  | .variable name (some value), stands => by
      have names := clean.names stands
      rw [Stmt.names, List.mem_cons, not_or] at names
      have lacks := (clean.lacks stands).declare (Ne.symm names.1)
      have valueSame := clean.hops_expression stands lacks value
        (fun other h => List.mem_cons_of_mem _ (by simpa using h))
      rw [Regions.renamed_declare, Regions.frames_declare, Regions.frames_declare] at valueSame
      exact valueSame
  | .block body, stands => Stmt.hopsAll_renamed clean body stands.block
  | .branch condition consequent none, stands => by
      have conditionSame := clean.hops_expression stands (clean.lacks stands) condition
        (fun _ h => by simp [Stmt.names, h])
      have consequentSame := Stmt.hops_renamed clean consequent stands.consequent
      simp only [Stmt.renamed, Stmt.renamed?, Stmt.bound, Stmt.bound?, Stmt.occurrences,
        List.map_append, conditionSame, consequentSame]
  | .branch condition consequent (some stmt), stands => by
      have conditionSame := clean.hops_expression stands (clean.lacks stands) condition
        (fun _ h => by simp [Stmt.names, h])
      have consequentSame := Stmt.hops_renamed clean consequent stands.consequent
      have otherNotNew := Stmt.hops_renamed clean stmt stands.alternative
      rw [Regions.renamed_behind clean stands.consequent, Regions.frames_behind,
        Regions.frames_behind] at otherNotNew
      simp only [Stmt.renamed, Stmt.renamed?, Stmt.bound, Stmt.bound?, Stmt.occurrences,
        Stmt.occurrences?, List.map_append, conditionSame, consequentSame, otherNotNew]
  | .loop condition body, stands => by
      have conditionSame := clean.hops_expression stands (clean.lacks stands) condition
        (fun _ h => by simp [Stmt.names, h])
      have bodySame := Stmt.hops_renamed clean body stands.loop
      simp only [Stmt.renamed, Stmt.bound, Stmt.occurrences, List.map_append, conditionSame, bodySame]
  | .function name parameters body, stands => by
      have bodySame := Stmt.hopsAll_renamed clean body stands.function
      rw [Regions.renamed_enter, Regions.renamed_declare, clean.token_function stands,
        Regions.frames_enter, Regions.frames_enter, Regions.frames_declare,
        Regions.frames_declare] at bodySame
      exact bodySame
  | .return_ keyword none, _ => rfl
  | .return_ keyword (some value), stands =>
      clean.hops_expression stands (clean.lacks stands) value fun _ h => by simpa [Stmt.names] using h

lemma Stmt.hopsAll_renamed (clean : r.Clean texts) {regions : Regions} {place : Place}
    {index : Nat} : ∀ stmts : List Stmt, Stands texts regions place (.several index stmts) →
      (Stmt.occurrencesAll (Stmt.boundAll (regions.renamed r).frames
          (Stmt.renamedAll r regions place index stmts))).map Occurrence.hops
        = (Stmt.occurrencesAll (Stmt.boundAll regions.frames stmts)).map Occurrence.hops
  | [], _ => rfl
  | first :: others, stands => by
      have firstSame := Stmt.hops_renamed clean first stands.first
      have othersSame := Stmt.hopsAll_renamed clean others stands.next
      rw [Regions.renamed_behind clean stands.first, Regions.frames_behind,
        Regions.frames_behind] at othersSame
      simp only [Stmt.renamedAll, Stmt.boundAll, Stmt.occurrencesAll, List.map_append, firstSame,
        othersSame]

end

/-! ## No scope errors after renaming -/

/-- An expression is without mistakes after renaming if the variable that is being initialized is
renamed like the occurrences of it. -/
lemma Renaming.Clean.mistakes_expression (clean : r.Clean texts) {regions around : Regions}
    {place : Place} {stmt : Stmt} (stands : Stands texts around place (.one stmt)) (value : Expr)
    (names : ∀ name ∈ value.names, name ∈ stmt.names) {unready unready' : Option String}
    (ready : ∀ name, name ≠ r.new → unready' = some (r.named (regions.site? name) name) →
      unready = some name)
    (found : value.mistakes unready = []) : (value.renamed r regions).mistakes unready' = [] := by
  rw [Expr.mistakes_eq_nil_iff] at found ⊢
  rw [Expr.occurrences_renamed, List.forall_mem_map]
  intro occurrence occurs read eq
  have ne : occurrence.name.lexeme ≠ r.new := by
    intro new
    exact clean.names stands (new ▸ names _ (List.mem_map_of_mem occurs))
  exact found occurrence occurs read (ready _ ne eq)

lemma Renaming.Clean.mistakes_plain (clean : r.Clean texts) {around : Regions} {place : Place}
    {stmt : Stmt} (stands : Stands texts around place (.one stmt)) (value : Expr) (regions : Regions)
    (names : ∀ name ∈ value.names, name ∈ stmt.names) (found : value.mistakes none = []) :
    (value.renamed r regions).mistakes none = [] :=
  clean.mistakes_expression stands value names (fun _ _ found => by cases found) found

lemma Frames.unready?_eq_some {frames : Frames} {name : Token} {unready : String}
    (found : frames.unready? name = some unready) : frames.isEmpty = false ∧ unready = name.lexeme := by
  rw [unready?] at found
  split_ifs at found with no
  rw [Bool.or_eq_true, not_or, Bool.not_eq_true] at no
  exact ⟨no.1, (Option.some.inj found).symm⟩

/-- If a variable must not be read in its renamed initializer, then neither before. -/
lemma Regions.unready?_renamed {regions : Regions} {name : Token} (notNew : name.lexeme ≠ r.new)
    (declares : regions.frames.declares name = false) {site? : Option Place} {other : String}
    (otherNotNew : other ≠ r.new)
    (found : (regions.renamed r).frames.unready? (r.token regions.innermost? name)
      = some (r.named site? other)) : regions.frames.unready? name = some other := by
  obtain ⟨empty, eq⟩ := Frames.unready?_eq_some found
  have empty : regions.frames.isEmpty = false := by
    cases regions with
    | nil => cases empty
    | cons region regions => rfl
  rw [Frames.unready?, empty, declares, Renaming.eq_of_named_eq otherNotNew notNew eq]
  rfl

lemma Regions.repeated_renamed {site : Place} : ∀ {parameters : List Token} {regions : Regions},
    regions.innermost? = some site → regions.Lacks r.new →
      (∀ parameter ∈ parameters, parameter.lexeme ≠ r.new) →
      Frames.repeated regions.frames parameters = [] →
      Frames.repeated (regions.renamed r).frames (parameters.map (r.token (some site))) = []
  | [], _, _, _, _, _ => rfl
  | parameter :: parameters, regions, here, lacks, names, h => by
      rw [List.forall_mem_cons] at names
      rw [Frames.repeated, List.append_eq_nil_iff, Frames.declaredTwice_eq_nil_iff] at h
      have first := declares_renamed lacks names.1 h.1
      rw [← frames_declare] at h
      have others := repeated_renamed (by rw [innermost?_declare, here]) (lacks.declare names.1)
        names.2 h.2
      rw [renamed_declare, frames_declare, here] at others
      rw [List.map_cons, Frames.repeated, List.append_eq_nil_iff, Frames.declaredTwice_eq_nil_iff]
      rw [here] at first
      exact ⟨first, others⟩

mutual

/-- A statement is without scope errors after renaming. -/
lemma Stmt.mistakes_renamed (clean : r.Clean texts) {regions : Regions} {place : Place}
    {inFunction : Bool} : ∀ stmt : Stmt, Stands texts regions place (.one stmt) →
      stmt.mistakes regions.frames inFunction = [] →
      (stmt.renamed r regions place).mistakes (regions.renamed r).frames inFunction = []
  | .expression value, stands, h =>
      clean.mistakes_plain stands value regions (fun _ h => h) h
  | .print value, stands, h =>
      clean.mistakes_plain stands value regions (fun _ h => h) h
  | .variable name initializer, stands, h => by
      have names := clean.names stands
      rw [Stmt.names, List.mem_cons, not_or] at names
      have notNew : name.lexeme ≠ r.new := Ne.symm names.1
      rw [Stmt.mistakes, List.append_eq_nil_iff, Frames.declaredTwice_eq_nil_iff] at h
      rw [Stmt.renamed, Stmt.mistakes, List.append_eq_nil_iff, Frames.declaredTwice_eq_nil_iff]
      refine ⟨Regions.declares_renamed (clean.lacks stands) notNew h.1, ?_⟩
      cases initializer with
      | none => rfl
      | some value =>
          refine clean.mistakes_expression stands value ?_ ?_ h.2
          · exact fun other h => List.mem_cons_of_mem _ (by simpa using h)
          · exact fun other otherNotNew => Regions.unready?_renamed notNew h.1 otherNotNew
  | .block body, stands, h => Stmt.mistakesAll_renamed clean body stands.block h
  | .branch condition consequent alternative, stands, h => by
      simp only [Stmt.mistakes, List.append_eq_nil_iff] at h
      have conditionSame := clean.mistakes_plain stands condition regions
        (fun _ h => by simp [Stmt.names, h]) h.1.1
      have consequentSame := Stmt.mistakes_renamed clean consequent stands.consequent h.1.2
      simp only [Stmt.renamed, Stmt.mistakes, List.append_eq_nil_iff]
      refine ⟨⟨conditionSame, consequentSame⟩, ?_⟩
      cases alternative with
      | none => rfl
      | some stmt =>
          have otherNotNew := h.2
          rw [Stmt.mistakes?, ← Regions.frames_behind] at otherNotNew
          have otherNotNew := Stmt.mistakes_renamed clean stmt stands.alternative otherNotNew
          rw [Regions.renamed_behind clean stands.consequent, Regions.frames_behind] at otherNotNew
          exact otherNotNew
  | .loop condition body, stands, h => by
      simp only [Stmt.mistakes, List.append_eq_nil_iff] at h
      have conditionSame := clean.mistakes_plain stands condition regions
        (fun _ h => by simp [Stmt.names, h]) h.1
      have bodySame := Stmt.mistakes_renamed clean body stands.loop h.2
      simp only [Stmt.renamed, Stmt.mistakes, List.append_eq_nil_iff]
      exact ⟨conditionSame, bodySame⟩
  | .function name parameters body, stands, h => by
      have names := clean.names stands
      simp only [Stmt.names, List.cons_append, List.mem_cons, List.mem_append, not_or] at names
      have notNew : name.lexeme ≠ r.new := Ne.symm names.1
      have lacks := clean.lacks stands
      simp only [Stmt.mistakes, List.append_eq_nil_iff, Frames.declaredTwice_eq_nil_iff] at h
      obtain ⟨⟨declares, repeated⟩, bodySame⟩ := h
      have declares := Regions.declares_renamed lacks notNew declares
      rw [clean.token_function stands] at declares
      -- the parameters are declared in a region of their own, inside that of the function
      have inside : Regions.Lacks (⟨place, []⟩ :: regions.declare name) r.new :=
        List.forall_mem_cons.mpr ⟨List.not_mem_nil, lacks.declare notNew⟩
      have notNew' : ∀ parameter ∈ parameters, parameter.lexeme ≠ r.new := by
        intro parameter listed eq
        exact names.2.1 (eq ▸ List.mem_map_of_mem listed)
      rw [← Regions.frames_declare, ← Regions.frames_cons ⟨place, []⟩] at repeated
      have repeated := Regions.repeated_renamed rfl inside notNew' repeated
      rw [← Regions.frames_declare, ← Regions.frames_enter] at bodySame
      have bodySame := Stmt.mistakesAll_renamed clean body stands.function bodySame
      rw [Regions.renamed_enter, Regions.renamed_declare, clean.token_function stands,
        Regions.frames_enter, Regions.frames_declare] at bodySame
      simp only [Stmt.renamed, Stmt.mistakes, List.append_eq_nil_iff,
        Frames.declaredTwice_eq_nil_iff]
      refine ⟨⟨declares, ?_⟩, bodySame⟩
      rw [← Regions.frames_declare, ← clean.token_function stands, ← Regions.renamed_declare]
      exact repeated
  | .return_ keyword value, stands, h => by
      rw [Stmt.mistakes, List.append_eq_nil_iff] at h
      rw [Stmt.renamed, Stmt.mistakes, List.append_eq_nil_iff]
      refine ⟨h.1, ?_⟩
      cases value with
      | none => rfl
      | some value =>
          exact clean.mistakes_plain stands value regions (fun _ h => by simpa [Stmt.names] using h)
            h.2

lemma Stmt.mistakesAll_renamed (clean : r.Clean texts) {regions : Regions} {place : Place}
    {index : Nat} {inFunction : Bool} : ∀ stmts : List Stmt,
      Stands texts regions place (.several index stmts) →
      Stmt.mistakesAll regions.frames inFunction stmts = [] →
      Stmt.mistakesAll (regions.renamed r).frames inFunction
        (Stmt.renamedAll r regions place index stmts) = []
  | [], _, _ => rfl
  | first :: others, stands, h => by
      simp only [Stmt.mistakesAll, List.append_eq_nil_iff] at h
      have firstSame := Stmt.mistakes_renamed clean first stands.first h.1
      have othersSame := h.2
      rw [← Regions.frames_behind] at othersSame
      have othersSame := Stmt.mistakesAll_renamed clean others stands.next othersSame
      rw [Regions.renamed_behind clean stands.first, Regions.frames_behind] at othersSame
      simp only [Stmt.renamedAll, Stmt.mistakesAll, List.append_eq_nil_iff]
      exact ⟨firstSame, othersSame⟩

end

end Clean

end LoxLang
