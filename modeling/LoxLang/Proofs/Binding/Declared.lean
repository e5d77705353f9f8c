import LoxLang.Proofs.Binding.Region

/-!
# What a scope declares

In an accepted program a scope declares every name once, and a place of the source determines what
stands there.  So a local variable or a parameter can be told by its scope and its name.

* `Declares` — a block or function has a local variable or a parameter of a name.
* `Stands.stmtAt?` — the statement at a place, found by following the place.
* **`Declares.ne_function`** — a name that a scope has for a variable it does not have for a function.
* `Stmt.names`, `Regions.Lacks` — all names in a statement, and regions in which a name is not found.
* `Stands.not_mem_names` — a name that is nowhere in the programs is in no statement of the walk.
-/

namespace LoxLang

/-! ## All names of a program -/

/-- The names of the variables in an expression. -/
def Expr.names (value : Expr) : List String := value.occurrences.map (·.name.lexeme)

mutual

/-- The names in a statement: of variables, of functions and of parameters. -/
def Stmt.names : Stmt → List String
  | .expression value => value.names
  | .print value => value.names
  | .variable name initializer => name.lexeme :: initializer.toList.flatMap Expr.names
  | .block body => Stmt.namesAll body
  | .branch condition consequent alternative =>
    condition.names ++ consequent.names ++ Stmt.names? alternative
  | .loop condition body => condition.names ++ body.names
  | .function name parameters body =>
    name.lexeme :: parameters.map Token.lexeme ++ Stmt.namesAll body
  | .return_ _ value => value.toList.flatMap Expr.names

/-- The names in statements. -/
def Stmt.namesAll : List Stmt → List String
  | [] => []
  | first :: others => first.names ++ Stmt.namesAll others

/-- The names in a statement that may be missing. -/
def Stmt.names? : Option Stmt → List String
  | none => []
  | some stmt => stmt.names

end

/-- The names in some code. -/
def Code.names : Code → List String
  | one stmt => stmt.names
  | several _ stmts => Stmt.namesAll stmts

/-- What a statement declares is one of its names. -/
lemma Stmt.mem_names_of_mem_declared : ∀ stmt : Stmt, ∀ name ∈ stmt.declared,
    name.lexeme ∈ stmt.names
  | .expression _, _, h | .print _, _, h | .block _, _, h | .return_ _ _, _, h =>
      absurd h List.not_mem_nil
  | .variable name _, other, h => by
      rw [List.mem_singleton.mp h]
      exact List.mem_cons_self
  | .function name _ _, other, h => by
      rw [List.mem_singleton.mp h]
      exact List.mem_cons_self
  | .branch _ consequent alternative, other, h => by
      rw [Stmt.names]
      rcases List.mem_append.mp h with h | h
      · have mem := Stmt.mem_names_of_mem_declared consequent other h
        simp [mem]
      · cases alternative with
        | none => exact absurd h List.not_mem_nil
        | some stmt =>
            have mem := Stmt.mem_names_of_mem_declared stmt other h
            simp [Stmt.names?, mem]
  | .loop _ body, other, h =>
      List.mem_append_right _ (Stmt.mem_names_of_mem_declared body other h)

/-- The occurrences and names in an expression of a statement are among those of the statement. -/
lemma Stmt.mem_of_mem_expressions {around regions : Regions} {value : Expr} : ∀ {stmt : Stmt},
    (regions, value) ∈ stmt.expressions around → ∀ o ∈ value.occurrences,
      o ∈ stmt.occurrences ∧ o.name.lexeme ∈ stmt.names := by
  intro stmt mem o occurs
  have named : o.name.lexeme ∈ value.names := List.mem_map_of_mem occurs
  cases stmt with
  | expression inner =>
      obtain ⟨rfl, rfl⟩ := Prod.mk.inj (List.mem_singleton.mp mem)
      exact ⟨occurs, named⟩
  | print inner =>
      obtain ⟨rfl, rfl⟩ := Prod.mk.inj (List.mem_singleton.mp mem)
      exact ⟨occurs, named⟩
  | «variable» name initializer =>
      cases initializer with
      | none => simp [Stmt.expressions] at mem
      | some inner =>
          obtain ⟨rfl, rfl⟩ := Prod.mk.inj (List.mem_singleton.mp mem)
          exact ⟨occurs, List.mem_cons_of_mem _ (by simpa using named)⟩
  | block body => simp [Stmt.expressions] at mem
  | branch condition consequent alternative =>
      obtain ⟨rfl, rfl⟩ := Prod.mk.inj (List.mem_singleton.mp mem)
      exact ⟨by simp [Stmt.occurrences, occurs], by simp [Stmt.names, named]⟩
  | loop condition body =>
      obtain ⟨rfl, rfl⟩ := Prod.mk.inj (List.mem_singleton.mp mem)
      exact ⟨by simp [Stmt.occurrences, occurs], by simp [Stmt.names, named]⟩
  | function name parameters body => simp [Stmt.expressions] at mem
  | return_ keyword result =>
      cases result with
      | none => simp [Stmt.expressions] at mem
      | some inner =>
          obtain ⟨rfl, rfl⟩ := Prod.mk.inj (List.mem_singleton.mp mem)
          exact ⟨occurs, by simpa [Stmt.names] using named⟩

namespace Regions

variable {regions : Regions} {name : String}

/-- A name that occurs nowhere in regions. -/
def Lacks (regions : Regions) (name : String) : Prop := ∀ region ∈ regions, name ∉ region.names

lemma Lacks.declare {token : Token} (lacks : regions.Lacks name) (ne : token.lexeme ≠ name) :
    (regions.declare token).Lacks name := by
  cases regions with
  | nil => exact lacks
  | cons region regions =>
      rw [Lacks, List.forall_mem_cons] at lacks
      refine List.forall_mem_cons.mpr ⟨?_, lacks.2⟩
      rw [List.mem_cons, not_or]
      exact ⟨ne.symm, lacks.1⟩

lemma Lacks.foldl_declare : ∀ {tokens : List Token} {regions : Regions}, regions.Lacks name →
    (∀ token ∈ tokens, token.lexeme ≠ name) → (tokens.foldl Regions.declare regions).Lacks name
  | [], _, h, _ => h
  | token :: tokens, regions, h, ne => by
      rw [List.forall_mem_cons] at ne
      rw [List.foldl_cons]
      exact Lacks.foldl_declare (h.declare ne.1) ne.2

end Regions

namespace Stands

variable {texts : Nat → List Stmt} {regions : Regions} {place : Place} {code : Code}

/-- A name that is nowhere in the programs is nowhere in the walk. -/
lemma not_mem_names {name : String} (new : ∀ step, name ∉ Stmt.namesAll (texts step))
    (stands : Stands texts regions place code) : name ∉ code.names ∧ regions.Lacks name := by
  have behind : ∀ {regions : Regions} {stmt : Stmt}, name ∉ stmt.names → regions.Lacks name →
      (regions.behind stmt).Lacks name := by
    intro regions stmt names lacks
    refine lacks.foldl_declare fun token same eq => ?_
    exact names (eq ▸ Stmt.mem_names_of_mem_declared stmt token same)
  induction stands with
  | program step => exact ⟨new step, fun _ stands => absurd stands List.not_mem_nil⟩
  | first _ ih =>
      simp only [Code.names, Stmt.namesAll, List.mem_append, not_or] at ih
      exact ⟨ih.1.1, ih.2⟩
  | next _ ih =>
      simp only [Code.names, Stmt.namesAll, List.mem_append, not_or] at ih
      exact ⟨ih.1.2, behind ih.1.1 ih.2⟩
  | block _ ih => exact ⟨ih.1, List.forall_mem_cons.mpr ⟨List.not_mem_nil, ih.2⟩⟩
  | consequent _ ih =>
      simp only [Code.names, Stmt.names, List.mem_append, not_or] at ih
      exact ⟨ih.1.1.2, ih.2⟩
  | alternative _ ih =>
      simp only [Code.names, Stmt.names, Stmt.names?, List.mem_append, not_or] at ih
      exact ⟨ih.1.2, behind ih.1.1.2 ih.2⟩
  | loop _ ih =>
      simp only [Code.names, Stmt.names, List.mem_append, not_or] at ih
      exact ⟨ih.1.2, ih.2⟩
  | @function regions place token parameters body _ ih =>
      simp only [Code.names, Stmt.names, List.cons_append, List.mem_cons, List.mem_append,
        not_or] at ih
      obtain ⟨⟨same, parametersApart, bodyStands⟩, lacks⟩ := ih
      refine ⟨bodyStands, Regions.Lacks.foldl_declare ?_ ?_⟩
      · exact List.forall_mem_cons.mpr ⟨List.not_mem_nil, lacks.declare (Ne.symm same)⟩
      · intro parameter listed eq
        exact parametersApart (eq ▸ List.mem_map_of_mem listed)

end Stands

/-! ## What stands at a place -/

/-- The part of a statement that a turn leads to. -/
def Stmt.part? (turn : Nat) : Stmt → Option Stmt
  | .block body => body[turn]?
  | .function _ _ body => body[turn]?
  | .branch _ consequent alternative => if turn = 0 then some consequent else alternative
  | .loop _ body => some body
  | _ => none

/-- The statement at a place. -/
def stmtAt? (texts : Nat → List Stmt) : Place → Option Stmt
  | [] => none
  | [_] => none
  | [turn, step] => (texts step)[turn]?
  | turn :: place => (stmtAt? texts place).bind (Stmt.part? turn)

lemma stmtAt?_cons {texts : Nat → List Stmt} {place : Place} {stmt : Stmt} (turn : Nat)
    (found : stmtAt? texts place = some stmt) : stmtAt? texts (turn :: place) = stmt.part? turn := by
  cases place with
  | nil => cases found
  | cons first place =>
      cases place with
      | nil => cases found
      | cons second place => rw [stmtAt?, found, Option.bind_some] <;> simp

/-- The walk finds at a place what following the place finds. -/
def Code.At (texts : Nat → List Stmt) (place : Place) : Code → Prop
  | one stmt => stmtAt? texts place = some stmt
  | several index stmts => ∀ turn, stmtAt? texts ((index + turn) :: place) = stmts[turn]?

namespace Stands

variable {texts : Nat → List Stmt} {regions : Regions} {place : Place} {code : Code}

lemma stmtAt (stands : Stands texts regions place code) : code.At texts place := by
  induction stands with
  | program step => exact fun turn => by rw [Nat.zero_add, stmtAt?]
  | first _ ih => exact ih 0
  | next _ ih =>
      intro turn
      have later := ih (turn + 1)
      rw [List.getElem?_cons_succ] at later
      rw [Nat.add_assoc, Nat.add_comm 1 turn]
      exact later
  | block _ ih => exact fun turn => by rw [Nat.zero_add, stmtAt?_cons turn ih, Stmt.part?]
  | consequent _ ih => rw [Code.At, stmtAt?_cons 0 ih, Stmt.part?, if_pos rfl]
  | alternative _ ih => rw [Code.At, stmtAt?_cons 1 ih, Stmt.part?, if_neg Nat.one_ne_zero]
  | loop _ ih => rw [Code.At, stmtAt?_cons 0 ih, Stmt.part?]
  | function _ ih => exact fun turn => by rw [Nat.zero_add, stmtAt?_cons turn ih, Stmt.part?]

/-- The statements of a body stand at the place of the block or function that they belong to. -/
lemma site_eq {site : Place} {index : Nat} {stmts : List Stmt}
    (stands : Stands texts regions place (.several index stmts))
    (innermost : regions.innermost? = some site) :
    place = site := by
  generalize shape : Code.several index stmts = code at stands
  induction stands generalizing index stmts with
  | program step => cases innermost
  | next _ ih =>
      rw [Regions.innermost?_behind] at innermost
      exact ih innermost rfl
  | block _ _ => exact Option.some.inj innermost
  | function _ _ =>
      rw [Regions.innermost?, Regions.sites_enter] at innermost
      exact Option.some.inj innermost
  | first _ _ | consequent _ _ | alternative _ _ | loop _ _ => cases shape

/-- A declaration stands directly in a body. -/
lemma of_declared (accepted : Accepted texts) {stmt : Stmt}
    (stands : Stands texts regions place (.one stmt)) (declared : stmt.declared ≠ []) :
    ∃ index others outer, place = index :: outer
      ∧ Stands texts regions outer (.several index (stmt :: others)) := by
  generalize shape : Code.one stmt = code at stands
  cases stands with
  | first several =>
      obtain rfl := Code.one.inj shape
      exact ⟨_, _, _, rfl, several⟩
  | consequent branch =>
      obtain rfl := Code.one.inj shape
      obtain ⟨⟨⟨nothing, _⟩, _⟩, _⟩ := branch.accepted accepted
      exact absurd nothing declared
  | alternative branch =>
      obtain rfl := Code.one.inj shape
      obtain ⟨⟨⟨_, _, nothing, _⟩, _⟩, _⟩ := branch.accepted accepted
      exact absurd nothing declared
  | loop loopStands =>
      obtain rfl := Code.one.inj shape
      obtain ⟨⟨⟨nothing, _⟩, _⟩, _⟩ := loopStands.accepted accepted
      exact absurd nothing declared
  | program _ | next _ | block _ | function _ => cases shape

end Stands

/-! ## Names are declared once -/

/-- The name that a declaration declares. -/
def Stmt.declaration? : Stmt → Option Token
  | .variable name _ => some name
  | .function name _ _ => some name
  | _ => none

lemma Frames.declares_declare {frames : Frames} {name other : Token}
    (found : frames.declares other = true) : (frames.declare name).declares other = true := by
  cases frames with
  | nil => cases found
  | cons innermost outer =>
      simp only [declares, List.head?_cons, Option.any_some, List.contains_iff_mem] at found
      simp only [declares, declare, List.head?_cons, Option.any_some, List.contains_iff_mem]
      exact List.mem_cons_of_mem _ found

lemma Frames.declares_eq_of_lexeme_eq {frames : Frames} {name other : Token}
    (same : other.lexeme = name.lexeme) : frames.declares other = frames.declares name := by
  rw [declares, declares, same]

lemma Frames.declaredTwice_eq_nil_iff {frames : Frames} {name : Token} :
    frames.declaredTwice name = [] ↔ frames.declares name = false := by
  rw [declaredTwice]
  split_ifs with h
  · simp [h]
  · simpa using h

lemma Frames.declares_foldl_declare : ∀ {names : List Token} {frames : Frames} {other : Token},
    frames.declares other = true → (names.foldl declare frames).declares other = true
  | [], _, _, h => h
  | name :: names, frames, other, h => by
      rw [List.foldl_cons]
      exact declares_foldl_declare (declares_declare h)

lemma Stmt.declares_eq_false {frames : Frames} {inFunction : Bool} {name : Token} :
    ∀ {stmt : Stmt}, stmt.mistakes frames inFunction = [] → stmt.declaration? = some name →
      frames.declares name = false
  | .variable _ _, mistakes, named => by
      obtain rfl := Option.some.inj named
      rw [Stmt.mistakes, List.append_eq_nil_iff, Frames.declaredTwice_eq_nil_iff] at mistakes
      exact mistakes.1
  | .function _ _ _, mistakes, named => by
      obtain rfl := Option.some.inj named
      simp only [Stmt.mistakes, List.append_eq_nil_iff, Frames.declaredTwice_eq_nil_iff] at mistakes
      exact mistakes.1.1

/-- What is declared in front of statements without scope errors is not declared in them. -/
lemma Stmt.ne_of_mistakesAll {inFunction : Bool} {name : Token} :
    ∀ {stmts : List Stmt} {frames : Frames}, frames.declares name = true →
      Stmt.mistakesAll frames inFunction stmts = [] →
      ∀ stmt ∈ stmts, ∀ other, stmt.declaration? = some other → other.lexeme ≠ name.lexeme
  | [], _, _, _, _, h => absurd h List.not_mem_nil
  | first :: others, frames, declares, mistakes, stmt, listed => by
      rw [Stmt.mistakesAll, List.append_eq_nil_iff] at mistakes
      intro other otherStands eq
      rcases List.mem_cons.mp listed with rfl | listed
      · have twice := Stmt.declares_eq_false mistakes.1 otherStands
        rw [Frames.declares_eq_of_lexeme_eq eq, declares] at twice
        cases twice
      · exact Stmt.ne_of_mistakesAll (Frames.declares_foldl_declare declares) mistakes.2 stmt listed
          other otherStands eq

/-- A block or function has a local variable or a parameter of a name. -/
inductive Declares (texts : Nat → List Stmt) : Place → String → Prop where
  | variable {regions : Regions} {place site : Place} {name : Token} {initializer : Option Expr} :
      Stands texts regions place (.one (.variable name initializer)) →
      regions.innermost? = some site → Declares texts site name.lexeme
  | parameter {regions : Regions} {site : Place} {function name : Token} {parameters : List Token}
      {body : List Stmt} :
      Stands texts regions site (.one (.function function parameters body)) →
      name ∈ parameters → Declares texts site name.lexeme

section Once

variable {texts : Nat → List Stmt} {regions regions' : Regions} {place place' site : Place}

lemma Frames.declare_ne_nil {frames : Frames} (differs : frames ≠ []) (name : Token) :
    frames.declare name ≠ [] := by
  cases frames with
  | nil => exact absurd rfl differs
  | cons innermost outer => simp [declare]

lemma Frames.declares_foldl_of_mem {name : Token} : ∀ {names : List Token} {frames : Frames},
    name ∈ names → frames ≠ [] → (names.foldl declare frames).declares name = true
  | other :: names, frames, h, some_ => by
      rw [List.foldl_cons]
      rcases List.mem_cons.mp h with rfl | h
      · refine declares_foldl_declare ?_
        cases frames with
        | nil => exact absurd rfl some_
        | cons innermost outer => simp [declares, declare]
      · exact declares_foldl_of_mem h (declare_ne_nil some_ other)

lemma Regions.frames_ne_nil (found : regions.innermost? = some site) : regions.frames ≠ [] := by
  cases regions with
  | nil => cases found
  | cons region regions => simp

lemma Stmt.mem_declared {name : Token} : ∀ {stmt : Stmt}, stmt.declaration? = some name →
    name ∈ stmt.declared
  | .variable _ _, h => by rw [Stmt.declared, ← Option.some.inj h, List.mem_singleton]
  | .function _ _ _, h => by rw [Stmt.declared, ← Option.some.inj h, List.mem_singleton]

/-- Of two declarations in the same body, the later one declares another name. -/
lemma Stands.ne_of_lt (accepted : Accepted texts) {index index' : Nat} {stmt stmt' : Stmt}
    {others others' : List Stmt} {name name' : Token}
    (stands : Stands texts regions site (.several index (stmt :: others)))
    (innermost : regions.innermost? = some site)
    (stands' : Stands texts regions' site (.several index' (stmt' :: others')))
    (named : stmt.declaration? = some name) (named' : stmt'.declaration? = some name')
    (lt : index < index') : name'.lexeme ≠ name.lexeme := by
  -- the later one is among the statements behind the earlier one
  obtain ⟨distance, rfl⟩ := Nat.exists_eq_add_of_lt lt
  have there := stands.stmtAt (distance + 1)
  have at' := stands'.stmtAt 0
  rw [Nat.add_zero, List.getElem?_cons_zero] at at'
  rw [← Nat.add_assoc, at', List.getElem?_cons_succ] at there
  obtain ⟨_, inFunction, mistakes⟩ := stands.accepted accepted
  rw [Stmt.mistakesAll, List.append_eq_nil_iff] at mistakes
  have declares := Frames.declares_foldl_of_mem (Stmt.mem_declared named)
    (Regions.frames_ne_nil innermost)
  exact Stmt.ne_of_mistakesAll declares mistakes.2 stmt' (List.mem_of_getElem? there.symm) name' named'

/-- **A name that a scope has for a variable or a parameter it does not have for a function.** -/
theorem Declares.ne_function (accepted : Accepted texts) {name : String}
    (holds : Declares texts site name) {function : Token} {parameters : List Token} {body : List Stmt}
    (functionStands : Stands texts regions place (.one (.function function parameters body)))
    (innermost : regions.innermost? = some site) : function.lexeme ≠ name := by
  obtain ⟨index, others, outer, rfl, several⟩ :=
    functionStands.of_declared accepted (by simp [Stmt.declared])
  obtain rfl := several.site_eq innermost
  cases holds with
  | @«variable» _ _ _ name initializer variableStands site' =>
      obtain ⟨index', others', outer', rfl, several'⟩ :=
        variableStands.of_declared accepted (by simp [Stmt.declared])
      obtain rfl := several'.site_eq site'
      rcases Nat.lt_trichotomy index index' with lt | rfl | lt
      · exact (several.ne_of_lt accepted innermost several' rfl rfl lt).symm
      · have there := several.stmtAt 0
        rw [several'.stmtAt 0] at there
        cases there
      · exact several'.ne_of_lt accepted site' several rfl rfl lt
  | @parameter _ _ other name parameters' body' otherStands mem =>
      -- the body begins with the parameters declared
      have bodyStands := otherStands.function
      obtain ⟨_, inFunction, mistakes⟩ := bodyStands.accepted accepted
      have there := several.stmtAt 0
      have at' := bodyStands.stmtAt index
      rw [Nat.add_zero] at there
      rw [Nat.zero_add, there] at at'
      rw [Regions.frames_enter] at mistakes
      refine Stmt.ne_of_mistakesAll ?_ mistakes _ (List.mem_of_getElem? at'.symm) function rfl
      exact Frames.declares_foldl_of_mem mem (List.cons_ne_nil [] _)

end Once

end LoxLang
