import LoxLang.Proofs.Grammar.Fresh

/-!
# Where a name is bound in the source

Binding walks through a program with the names declared so far in the scopes around it, but forgets
which scopes those are.  Here every scope keeps the place of the block or the function that opens
it, so that a number of hops can be read as a place in the source.

* `Place` — the way from a whole session to a statement.
* `Region` — a block or function around a place, with the names declared in it so far; regions carry
  the same `Frames` that binding works with.
* `Stands` — the walk: which statement stands where, inside which regions.
* `Mentions` — an occurrence in one of the expressions of the statement at a place.
* **`Stands.accepted`** — wherever the walk comes to in programs without scope errors, there is none.
* `Settled` — the hops of an occurrence lead to the region that declares its name.
* **`Stands.settled`** — binding settles every occurrence of an accepted program.
-/

namespace LoxLang

/-- The way to a statement of a session: the number of the step, and then which part to turn to in
each statement on the way.  The last turn comes first. -/
abbrev Place := List Nat

/-- A block or function around a place: where the statement that opens it stands, and the names
declared in it so far. -/
structure Region where
  site : Place
  names : List String

/-- The blocks and functions around a place, the innermost first. -/
abbrev Regions := List Region

namespace Regions

/-- The names of regions, as binding works with them. -/
def frames (regions : Regions) : Frames := regions.map Region.names

/-- The places of the statements that open the regions. -/
def sites (regions : Regions) : List Place := regions.map Region.site

/-- The place of the innermost block or function; nothing for the globals. -/
def innermost? (regions : Regions) : Option Place := regions.sites.head?

/-- Adds a name to the innermost region; global names are not kept. -/
def declare (regions : Regions) (name : Token) : Regions :=
  match regions with
  | [] => []
  | innermost :: others => ⟨innermost.site, name.lexeme :: innermost.names⟩ :: others

/-- The regions behind a statement. -/
def behind (regions : Regions) (stmt : Stmt) : Regions := stmt.declared.foldl declare regions

/-- The regions inside a function. -/
def enter (regions : Regions) (site : Place) (parameters : List Token) : Regions :=
  parameters.foldl declare (⟨site, []⟩ :: regions)

@[simp] lemma frames_cons (region : Region) (regions : Regions) :
    frames (region :: regions) = region.names :: regions.frames := rfl

@[simp] lemma frames_declare (regions : Regions) (name : Token) :
    (regions.declare name).frames = regions.frames.declare name := by
  cases regions with
  | nil => rfl
  | cons innermost others => rfl

@[simp] lemma sites_declare (regions : Regions) (name : Token) :
    (regions.declare name).sites = regions.sites := by
  cases regions with
  | nil => rfl
  | cons innermost others => rfl

lemma frames_foldl_declare (names : List Token) : ∀ regions : Regions,
    (names.foldl declare regions).frames = names.foldl Frames.declare regions.frames := by
  induction names with
  | nil => intro regions; rfl
  | cons name others ih =>
      intro regions
      rw [List.foldl_cons, ih, frames_declare, List.foldl_cons]

lemma sites_foldl_declare (names : List Token) : ∀ regions : Regions,
    (names.foldl declare regions).sites = regions.sites := by
  induction names with
  | nil => intro regions; rfl
  | cons name others ih =>
      intro regions
      rw [List.foldl_cons, ih, sites_declare]

@[simp] lemma frames_behind (regions : Regions) (stmt : Stmt) :
    (regions.behind stmt).frames = regions.frames.behind stmt :=
  frames_foldl_declare stmt.declared regions

@[simp] lemma sites_behind (regions : Regions) (stmt : Stmt) :
    (regions.behind stmt).sites = regions.sites := sites_foldl_declare stmt.declared regions

@[simp] lemma innermost?_declare (regions : Regions) (name : Token) :
    (regions.declare name).innermost? = regions.innermost? := by
  rw [innermost?, sites_declare, innermost?]

@[simp] lemma innermost?_behind (regions : Regions) (stmt : Stmt) :
    (regions.behind stmt).innermost? = regions.innermost? := by
  rw [innermost?, sites_behind, innermost?]

@[simp] lemma frames_enter (regions : Regions) (site : Place) (parameters : List Token) :
    (regions.enter site parameters).frames = regions.frames.enter parameters :=
  frames_foldl_declare parameters (⟨site, []⟩ :: regions)

@[simp] lemma sites_enter (regions : Regions) (site : Place) (parameters : List Token) :
    (regions.enter site parameters).sites = site :: regions.sites :=
  sites_foldl_declare parameters (⟨site, []⟩ :: regions)

/-- Behind a statement that declares nothing, everything is as it was before it. -/
lemma behind_eq_self {stmt : Stmt} (found : stmt.declared = []) (regions : Regions) :
    regions.behind stmt = regions := by rw [behind, found, List.foldl_nil]

end Regions

lemma Frames.behind_eq_self {stmt : Stmt} (found : stmt.declared = []) (frames : Frames) :
    frames.behind stmt = frames := by rw [behind, found, List.foldl_nil]

/-! ## The walk -/

/-- What stands at a place: one statement, or the statements of a body from some index on. -/
inductive Code where
  | one (stmt : Stmt)
  | several (index : Nat) (stmts : List Stmt)

/-- The walk through the programs of a session: some code stands at a place inside regions. -/
inductive Stands (texts : Nat → List Stmt) : Regions → Place → Code → Prop where
  | program (step : Nat) : Stands texts [] [step] (.several 0 (texts step))
  | first {regions : Regions} {place : Place} {index : Nat} {stmt : Stmt} {others : List Stmt} :
      Stands texts regions place (.several index (stmt :: others)) →
      Stands texts regions (index :: place) (.one stmt)
  | next {regions : Regions} {place : Place} {index : Nat} {stmt : Stmt} {others : List Stmt} :
      Stands texts regions place (.several index (stmt :: others)) →
      Stands texts (regions.behind stmt) place (.several (index + 1) others)
  | block {regions : Regions} {place : Place} {body : List Stmt} :
      Stands texts regions place (.one (.block body)) →
      Stands texts (⟨place, []⟩ :: regions) place (.several 0 body)
  | consequent {regions : Regions} {place : Place} {condition : Expr} {stmt : Stmt}
      {alternative : Option Stmt} :
      Stands texts regions place (.one (.branch condition stmt alternative)) →
      Stands texts regions (0 :: place) (.one stmt)
  | alternative {regions : Regions} {place : Place} {condition : Expr} {consequent stmt : Stmt} :
      Stands texts regions place (.one (.branch condition consequent (some stmt))) →
      Stands texts (regions.behind consequent) (1 :: place) (.one stmt)
  | loop {regions : Regions} {place : Place} {condition : Expr} {stmt : Stmt} :
      Stands texts regions place (.one (.loop condition stmt)) →
      Stands texts regions (0 :: place) (.one stmt)
  | function {regions : Regions} {place : Place} {name : Token} {parameters : List Token}
      {body : List Stmt} :
      Stands texts regions place (.one (.function name parameters body)) →
      Stands texts ((regions.declare name).enter place parameters) place (.several 0 body)

/-- The expressions that stand directly in a statement, with the regions they are bound in. -/
def Stmt.expressions (regions : Regions) : Stmt → List (Regions × Expr)
  | .expression value => [(regions, value)]
  | .print value => [(regions, value)]
  | .variable name initializer => initializer.toList.map (regions.declare name, ·)
  | .block _ => []
  | .branch condition _ _ => [(regions, condition)]
  | .loop condition _ => [(regions, condition)]
  | .function _ _ _ => []
  | .return_ _ value => value.toList.map (regions, ·)

/-- The statement at a place has an occurrence in one of its expressions, inside regions. -/
def Mentions (texts : Nat → List Stmt) (regions : Regions) (place : Place)
    (occurrence : Occurrence) : Prop :=
  ∃ (around : Regions) (stmt : Stmt) (value : Expr), Stands texts around place (.one stmt)
    ∧ (regions, value) ∈ stmt.expressions around ∧ occurrence ∈ value.occurrences

/-! ## Programs without scope errors -/

/-- Programs that are fresh from the parser and have no scope errors. -/
def Accepted (texts : Nat → List Stmt) : Prop :=
  ∀ step, Stmt.FreshAll (texts step) ∧ Program.mistakes (texts step) = []

/-- Code without scope errors inside some frames, fresh from the parser. -/
def Code.Sound (frames : Frames) : Code → Prop
  | one stmt => stmt.Fresh ∧ ∃ inFunction, stmt.mistakes frames inFunction = []
  | several _ stmts => Stmt.FreshAll stmts ∧ ∃ inFunction, Stmt.mistakesAll frames inFunction stmts = []

/-- **There is no scope error anywhere in an accepted program.** -/
theorem Stands.accepted {texts : Nat → List Stmt} (accepted : Accepted texts) {regions : Regions}
    {place : Place} {code : Code} (stands : Stands texts regions place code) :
    code.Sound regions.frames := by
  induction stands with
  | program step => exact ⟨(accepted step).1, false, (accepted step).2⟩
  | first _ ih =>
      obtain ⟨fresh, inFunction, mistakes⟩ := ih
      rw [Stmt.mistakesAll, List.append_eq_nil_iff] at mistakes
      exact ⟨(Stmt.freshAll_cons.mp fresh).1, inFunction, mistakes.1⟩
  | next _ ih =>
      obtain ⟨fresh, inFunction, mistakes⟩ := ih
      rw [Stmt.mistakesAll, List.append_eq_nil_iff] at mistakes
      refine ⟨(Stmt.freshAll_cons.mp fresh).2, inFunction, ?_⟩
      rw [Regions.frames_behind]
      exact mistakes.2
  | block _ ih =>
      obtain ⟨⟨orderly, unbound⟩, inFunction, mistakes⟩ := ih
      exact ⟨⟨orderly, unbound⟩, inFunction, mistakes⟩
  | consequent _ ih =>
      obtain ⟨⟨⟨_, orderly, _⟩, unbound⟩, inFunction, mistakes⟩ := ih
      simp only [Stmt.mistakes, List.append_eq_nil_iff] at mistakes
      simp only [Stmt.occurrences, Occurrence.unbound_append] at unbound
      exact ⟨⟨orderly, unbound.1.2⟩, inFunction, mistakes.1.2⟩
  | alternative _ ih =>
      obtain ⟨⟨⟨_, _, _, orderly⟩, unbound⟩, inFunction, mistakes⟩ := ih
      simp only [Stmt.mistakes, Stmt.mistakes?, List.append_eq_nil_iff] at mistakes
      simp only [Stmt.occurrences, Occurrence.unbound_append] at unbound
      refine ⟨⟨orderly, unbound.2⟩, inFunction, ?_⟩
      rw [Regions.frames_behind]
      exact mistakes.2
  | loop _ ih =>
      obtain ⟨⟨⟨_, orderly⟩, unbound⟩, inFunction, mistakes⟩ := ih
      simp only [Stmt.mistakes, List.append_eq_nil_iff] at mistakes
      simp only [Stmt.occurrences, Occurrence.unbound_append] at unbound
      exact ⟨⟨orderly, unbound.2⟩, inFunction, mistakes.2⟩
  | function _ ih =>
      obtain ⟨⟨orderly, unbound⟩, inFunction, mistakes⟩ := ih
      simp only [Stmt.mistakes, List.append_eq_nil_iff] at mistakes
      refine ⟨⟨orderly, unbound⟩, true, ?_⟩
      rw [Regions.frames_enter, Regions.frames_declare]
      exact mistakes.2

/-! ## Occurrences -/

/-- An occurrence with the hops that binding gives it. -/
def Occurrence.bound (frames : Frames) (occurrence : Occurrence) : Occurrence :=
  { occurrence with hops := (frames.hops? occurrence.name.lexeme).or occurrence.hops }

mutual

/-- Binding changes the hops of occurrences and nothing else about them. -/
lemma Expr.occurrences_bound (frames : Frames) : ∀ value : Expr,
    (value.bound frames).occurrences = value.occurrences.map (Occurrence.bound frames)
  | .literal _ => rfl
  | .group inner => Expr.occurrences_bound frames inner
  | .unary _ operand => Expr.occurrences_bound frames operand
  | .binary left _ right => by
      simp only [Expr.bound, Expr.occurrences, List.map_append, Expr.occurrences_bound frames left,
        Expr.occurrences_bound frames right]
  | .logical left _ right => by
      simp only [Expr.bound, Expr.occurrences, List.map_append, Expr.occurrences_bound frames left,
        Expr.occurrences_bound frames right]
  | .variable _ _ => rfl
  | .assign _ value _ => by
      simp only [Expr.bound, Expr.occurrences, List.map_append, Expr.occurrences_bound frames value]
      rfl
  | .call callee _ arguments => by
      simp only [Expr.bound, Expr.occurrences, List.map_append,
        Expr.occurrences_bound frames callee, Expr.occurrencesAll_bound frames arguments]

lemma Expr.occurrencesAll_bound (frames : Frames) : ∀ values : List Expr,
    Expr.occurrencesAll (Expr.boundAll frames values)
      = (Expr.occurrencesAll values).map (Occurrence.bound frames)
  | [] => rfl
  | first :: others => by
      simp only [Expr.boundAll, Expr.occurrencesAll, List.map_append,
        Expr.occurrences_bound frames first, Expr.occurrencesAll_bound frames others]

end

/-- The mistake at an occurrence, if the name `unready` is read there. -/
def Occurrence.mistake? (unready : Option String) (occurrence : Occurrence) : Option ScopeReport :=
  if occurrence.assigned = false ∧ unready = some occurrence.name.lexeme then
    some ⟨.ownInitializer, occurrence.name⟩
  else none

mutual

/-- The mistakes in an expression are those at its occurrences. -/
lemma Expr.mistakes_eq (unready : Option String) : ∀ value : Expr,
    value.mistakes unready = value.occurrences.filterMap (Occurrence.mistake? unready)
  | .literal _ => rfl
  | .group inner => Expr.mistakes_eq unready inner
  | .unary _ operand => Expr.mistakes_eq unready operand
  | .binary left _ right => by
      rw [Expr.mistakes, Expr.occurrences, List.filterMap_append, Expr.mistakes_eq unready left,
        Expr.mistakes_eq unready right]
  | .logical left _ right => by
      rw [Expr.mistakes, Expr.occurrences, List.filterMap_append, Expr.mistakes_eq unready left,
        Expr.mistakes_eq unready right]
  | .variable name hops => by
      by_cases same : unready = some name.lexeme <;>
        simp [Expr.mistakes, Expr.occurrences, Occurrence.mistake?, same]
  | .assign name value hops => by
      simp [Expr.mistakes, Expr.occurrences, Expr.mistakes_eq unready value, Occurrence.mistake?]
  | .call callee _ arguments => by
      rw [Expr.mistakes, Expr.occurrences, List.filterMap_append, Expr.mistakes_eq unready callee,
        Expr.mistakesAll_eq unready arguments]

lemma Expr.mistakesAll_eq (unready : Option String) : ∀ values : List Expr,
    Expr.mistakesAll unready values
      = (Expr.occurrencesAll values).filterMap (Occurrence.mistake? unready)
  | [] => rfl
  | first :: others => by
      rw [Expr.mistakesAll, Expr.occurrencesAll, List.filterMap_append,
        Expr.mistakes_eq unready first, Expr.mistakesAll_eq unready others]

end

/-- An expression is without mistakes if it does not read the variable that is being initialized. -/
lemma Expr.mistakes_eq_nil_iff (unready : Option String) (value : Expr) :
    value.mistakes unready = [] ↔ ∀ occurrence ∈ value.occurrences,
      occurrence.assigned = false → unready ≠ some occurrence.name.lexeme := by
  simp [Expr.mistakes_eq, Occurrence.mistake?]

/-- Declaring a name changes nothing for other names. -/
lemma Frames.hops?_declare_of_ne {frames : Frames} {name : Token} {other : String}
    (differs : other ≠ name.lexeme) : (frames.declare name).hops? other = frames.hops? other := by
  cases frames with
  | nil => rfl
  | cons innermost others =>
      have contains : (name.lexeme :: innermost).contains other = innermost.contains other := by
        simp [differs]
      simp only [Frames.declare, Frames.hops?, List.findIdx?_cons, contains]

/-- An occurrence in an expression of the statement at a place, after binding: its hops lead to the
region that declares its name, and if it is read, that region does so already in front of the
statement. -/
def Settled (texts : Nat → List Stmt) (around : Regions) (place : Place) (occurrence : Occurrence) :
    Prop :=
  ∀ distance, occurrence.hops = some distance → ∃ regions : Regions,
    Mentions texts regions place { occurrence with hops := none }
      ∧ regions.sites = around.sites
      ∧ regions.frames.hops? occurrence.name.lexeme = some distance
      ∧ (occurrence.assigned = false →
          around.frames.hops? occurrence.name.lexeme = some distance)

lemma settled_of_stands {texts : Nat → List Stmt} {around regions : Regions} {place : Place}
    {stmt : Stmt} {value : Expr} (stands : Stands texts around place (.one stmt))
    (mem : (regions, value) ∈ stmt.expressions around) (fresh : value.Fresh)
    (sites : regions.sites = around.sites)
    (read : ∀ occurrence ∈ value.occurrences, occurrence.assigned = false →
      around.frames.hops? occurrence.name.lexeme = regions.frames.hops? occurrence.name.lexeme) :
    ∀ occurrence ∈ (value.bound regions.frames).occurrences,
      Settled texts around place occurrence := by
  intro occurrence occurs distance hops
  rw [Expr.occurrences_bound, List.mem_map] at occurs
  obtain ⟨source, listed, rfl⟩ := occurs
  have none_ := fresh source listed
  rw [Occurrence.bound, none_, Option.or_none] at hops
  refine ⟨regions, ⟨around, stmt, value, stands, mem, ?_⟩, sites, hops, ?_⟩
  · rw [Occurrence.bound, ← none_]
    exact listed
  · intro assigned
    rw [← hops]
    exact read source listed assigned

/-- **Every occurrence in an accepted program is settled**, whichever statement it stands in. -/
theorem Stands.settled {texts : Nat → List Stmt} (accepted : Accepted texts) {around : Regions}
    {place : Place} {stmt : Stmt} (stands : Stands texts around place (.one stmt))
    {regions : Regions} {value : Expr} (mem : (regions, value) ∈ stmt.expressions around) :
    ∀ occurrence ∈ (value.bound regions.frames).occurrences,
      Settled texts around place occurrence := by
  obtain ⟨⟨_, unbound⟩, inFunction, mistakes⟩ := stands.accepted accepted
  cases stmt with
  | expression inner =>
      obtain ⟨rfl, rfl⟩ := Prod.mk.inj (List.mem_singleton.mp mem)
      exact settled_of_stands stands mem unbound rfl fun _ _ _ => rfl
  | print inner =>
      obtain ⟨rfl, rfl⟩ := Prod.mk.inj (List.mem_singleton.mp mem)
      exact settled_of_stands stands mem unbound rfl fun _ _ _ => rfl
  | «variable» name initializer =>
      cases initializer with
      | none => simp [Stmt.expressions] at mem
      | some inner =>
          obtain ⟨rfl, rfl⟩ := Prod.mk.inj (List.mem_singleton.mp mem)
          rw [Stmt.mistakes, List.append_eq_nil_iff] at mistakes
          refine settled_of_stands stands mem unbound (Regions.sites_declare _ _) ?_
          intro occurrence occurs read
          rw [Regions.frames_declare]
          have unready := (Expr.mistakes_eq_nil_iff _ value).mp mistakes.2 occurrence occurs read
          by_cases same : occurrence.name.lexeme = name.lexeme
          · -- the variable itself can be read only where its declaration counts for nothing
            rw [Frames.unready?] at unready
            split_ifs at unready with h
            · rcases Bool.or_eq_true_iff.mp h with empty | twice
              · rw [List.isEmpty_iff.mp empty]
                rfl
              · rw [Frames.declaredTwice, if_pos twice] at mistakes
                cases mistakes.1
            · exact absurd (congrArg some same.symm) unready
          · rw [Frames.hops?_declare_of_ne same]
  | block body => simp [Stmt.expressions] at mem
  | branch condition consequent alternative =>
      obtain ⟨rfl, rfl⟩ := Prod.mk.inj (List.mem_singleton.mp mem)
      simp only [Stmt.occurrences, Occurrence.unbound_append] at unbound
      exact settled_of_stands stands mem unbound.1.1 rfl fun _ _ _ => rfl
  | loop condition body =>
      obtain ⟨rfl, rfl⟩ := Prod.mk.inj (List.mem_singleton.mp mem)
      simp only [Stmt.occurrences, Occurrence.unbound_append] at unbound
      exact settled_of_stands stands mem unbound.1 rfl fun _ _ _ => rfl
  | function name parameters body => simp [Stmt.expressions] at mem
  | return_ keyword result =>
      cases result with
      | none => simp [Stmt.expressions] at mem
      | some inner =>
          obtain ⟨rfl, rfl⟩ := Prod.mk.inj (List.mem_singleton.mp mem)
          exact settled_of_stands stands mem unbound rfl fun _ _ _ => rfl

end LoxLang
