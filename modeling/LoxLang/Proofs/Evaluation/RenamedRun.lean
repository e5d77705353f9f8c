import LoxLang.Proofs.Evaluation.RenamedStep

/-!
# Whole runs of a program and of the renamed one

**`Watch.renamed`** is an induction on the allowance over all functions of a run at once: a part of the
program, bound where it stands, and the renamed part, bound where that stands, end alike.
-/

namespace LoxLang

/-- Two runs stand beside each other at a place: their machines are alike, and the new name is in none
of the regions around. -/
structure Beside (texts : Nat → List Stmt) (r : Renaming) (regions : Regions) (here : Position)
    (origins : List Position) (sites : List (Option Place)) (machine machine' : Machine) : Prop where
  alike : machine.Resembles texts r origins sites machine'
  aligned : Aligned sites regions here machine.current
  lacks : regions.Lacks r.new

/-- An occurrence of a fresh tree that is not the new name. -/
def Renaming.Plain (r : Renaming) (occurrence : Occurrence) : Prop :=
  occurrence.hops = none ∧ occurrence.name.lexeme ≠ r.new

/-- Two statements end in the same way. -/
inductive Completion.Resembles (texts : Nat → List Stmt) (r : Renaming) (origins : List Position)
    (sites : List (Option Place)) : Completion → Completion → Prop where
  | normal : Resembles texts r origins sites .normal .normal
  | returned {value value' : Value} : value.Resembles texts r origins sites value' →
      Resembles texts r origins sites (.returned value) (.returned value')

/-- What holds of two runs side by side when both may take `n` steps. -/
structure RenamedRun (texts : Nat → List Stmt) (r : Renaming) (n : Nat) : Prop where
  evaluate : ∀ {regions here origins sites machine machine'},
    Beside texts r regions here origins sites machine machine' →
    ∀ value : Expr, (∀ o ∈ value.occurrences, r.Plain o) →
      Watched.Resembles texts r origins sites machine.current (ResemblingValue texts r)
        (Watch.steps.evaluate n (value.bound regions.frames) here origins machine)
        (Action.evaluate n ((value.renamed r regions).bound (regions.renamed r).frames) machine')
  evaluateAll : ∀ {regions here origins sites machine machine'},
    Beside texts r regions here origins sites machine machine' →
    ∀ values : List Expr, (∀ o ∈ Expr.occurrencesAll values, r.Plain o) →
      Watched.Resembles texts r origins sites machine.current
        (fun origins sites => List.Forall₂ (Value.Resembles texts r origins sites))
        (Watch.steps.evaluateAll n (Expr.boundAll regions.frames values) here origins machine)
        (Action.evaluateAll n
          (Expr.boundAll (regions.renamed r).frames (Expr.renamedAll r regions values)) machine')
  call : ∀ {here origins sites} {machine machine' : Machine},
    machine.Resembles texts r origins sites machine' →
    ∀ (callee callee' : Value) (paren : Token) (arguments arguments' : List Value),
      callee.Resembles texts r origins sites callee' →
      List.Forall₂ (Value.Resembles texts r origins sites) arguments arguments' →
      Watched.Resembles texts r origins sites machine.current (ResemblingValue texts r)
        (Watch.steps.call n callee paren arguments here origins machine)
        (Action.call n callee' paren arguments' machine')
  execute : ∀ {regions here origins sites machine machine'},
    Beside texts r regions here origins sites machine machine' →
    ∀ stmt : Stmt, Stands texts regions here.place (.one stmt) →
      Watched.Resembles texts r origins sites machine.current (Completion.Resembles texts r)
        (Watch.steps.execute n (stmt.bound regions.frames) here origins machine)
        (Action.execute n ((stmt.renamed r regions here.place).bound (regions.renamed r).frames)
          machine')
  evaluateOr : ∀ {regions here origins sites machine machine'},
    Beside texts r regions here origins sites machine machine' →
    ∀ value : Option Expr, (∀ o ∈ Expr.occurrences? value, r.Plain o) →
      Watched.Resembles texts r origins sites machine.current (ResemblingValue texts r)
        (Watch.steps.evaluateOr n (value.map (Expr.bound regions.frames)) here origins machine)
        (Action.evaluateOr n ((value.map (Expr.renamed r regions)).map
          (Expr.bound (regions.renamed r).frames)) machine')
  executeAll : ∀ {regions here origins sites machine machine'},
    Beside texts r regions here origins sites machine machine' →
    ∀ (index : Nat) (stmts : List Stmt), Stands texts regions here.place (.several index stmts) →
      Watched.Resembles texts r origins sites machine.current (Completion.Resembles texts r)
        (Watch.steps.executeAll n (Stmt.boundAll regions.frames stmts) (here.turn index) origins
          machine)
        (Action.executeAll n (Stmt.boundAll (regions.renamed r).frames
          (Stmt.renamedAll r regions here.place index stmts)) machine')

namespace Beside

variable {texts : Nat → List Stmt} {r : Renaming} {regions : Regions} {here : Position}
  {origins : List Position} {sites : List (Option Place)} {machine machine' : Machine}

lemma next (beside : Beside texts r regions here origins sites machine machine')
    {origins' : List Position} {sites' : List (Option Place)} {after after' : Machine}
    (along : Alongside texts r origins sites machine.current origins' sites' after after') :
    Beside texts r regions here origins' sites' after after' :=
  ⟨along.alike, beside.aligned.next along, beside.lacks⟩

/-- Behind a statement. -/
lemma behind (beside : Beside texts r regions here origins sites machine machine')
    (clean : r.Clean texts) {stmt : Stmt} {place : Place} {code : Code}
    (stands : Stands texts (regions.behind stmt) place code) :
    Beside texts r (regions.behind stmt) here origins sites machine machine' :=
  ⟨beside.alike, beside.aligned.of_sites (Regions.sites_behind _ _), clean.lacks stands⟩

/-- Inside a block or function that has just got its scope. -/
lemma inside (alike : machine.Resembles texts r origins sites machine') {scope : Nat}
    (labelled_ : sites[scope]? = some (some here.place)) (labelled : Labelled sites here.display)
    {inner : Regions} (same : inner.sites = here.place :: here.display.map Instance.site)
    (lacks : inner.Lacks r.new) :
    Beside texts r inner (here.enter scope) origins sites { machine with current := scope }
      { machine' with current := scope } := by
  refine ⟨⟨by rw [alike.rest], alike.events, alike.natives, alike.store⟩, ?_, lacks⟩
  refine ⟨?_, List.forall_mem_cons.mpr ⟨labelled_, labelled⟩, ?_⟩
  · rw [same]
    rfl
  · rw [Regions.innermost?, same]
    exact labelled_

end Beside

namespace RenamedRun

variable {texts : Nat → List Stmt} {r : Renaming} {n : Nat} {regions : Regions} {here : Position}
  {origins : List Position} {sites : List (Option Place)} {machine machine' : Machine}

/-! ## Expressions -/

/-- The hops of a name in the renamed regions. -/
lemma hops?_token (lacks : regions.Lacks r.new) {name : Token} (notNew : name.lexeme ≠ r.new) :
    (regions.renamed r).frames.hops? (r.token (regions.site? name.lexeme) name).lexeme
      = regions.frames.hops? name.lexeme := Regions.hops?_renamed lacks notNew

lemma evaluate_succ (ih : RenamedRun texts r n)
    (beside : Beside texts r regions here origins sites machine machine') :
    ∀ value : Expr, (∀ o ∈ value.occurrences, r.Plain o) →
      Watched.Resembles texts r origins sites machine.current (ResemblingValue texts r)
        (Watch.steps.evaluate (n + 1) (value.bound regions.frames) here origins machine)
        (Action.evaluate (n + 1) ((value.renamed r regions).bound (regions.renamed r).frames) machine')
  | .literal constant, _ => by
      refine Watched.Resembles.pure beside.alike (Value.resembles_self fun _ _ h => ?_)
      cases constant <;> cases h
  | .group inner, plain => ih.evaluate beside inner plain
  | .unary operator operand, plain => by
      refine Watched.Resembles.bind (ih.evaluate beside operand plain) ?_
      intro value value' origins' sites' after after' along valueAlike
      rw [valueAlike.alike.prefixed_eq]
      exact resembles_ofExcept along.alike (operatorResult_prefixed _ _) operator
  | .binary left operator right, plain => by
      simp only [Expr.occurrences, List.forall_mem_append] at plain
      refine Watched.Resembles.bind (ih.evaluate beside left plain.1) ?_
      intro value value' origins' sites' after after' along valueAlike
      refine Watched.Resembles.bind (ih.evaluate (beside.next along) right plain.2) ?_
      intro other other' origins'' sites'' last last' along' otherAlike
      rw [(valueAlike.grow along'.origins along'.sites).alike.combined_eq otherAlike.alike,
        Watch.steps_meets]
      exact resembles_ofExcept along'.alike (operatorResult_combined _ _ _) operator
  | .logical left operator right, plain => by
      simp only [Expr.occurrences, List.forall_mem_append] at plain
      refine Watched.Resembles.bind (ih.evaluate beside left plain.1) ?_
      intro value value' origins' sites' after after' along valueAlike
      rw [valueAlike.alike.isTruthy_eq]
      split
      · exact Watched.Resembles.pure along.alike valueAlike
      · exact ih.evaluate (beside.next along) right plain.2
  | .variable name hops, plain => by
      obtain ⟨rfl, notNew⟩ := plain _ (List.mem_singleton_self _)
      have look := resembles_look beside.alike beside.aligned notNew
      rw [Expr.renamed, Expr.bound, Expr.bound, Option.or_none, Option.or_none,
        hops?_token beside.lacks notNew]
      exact look
  | .assign name value hops, plain => by
      simp only [Expr.occurrences, List.forall_mem_append, List.forall_mem_singleton] at plain
      obtain ⟨valueAlike, rfl, notNew⟩ := plain
      rw [Expr.renamed, Expr.bound, Expr.bound, Option.or_none, Option.or_none,
        hops?_token beside.lacks notNew]
      refine Watched.Resembles.bind (ih.evaluate beside value valueAlike) ?_
      intro found found' origins' sites' after after' along foundAlike
      exact resembles_assign along.alike (beside.next along).aligned notNew foundAlike
  | .call callee paren arguments, plain => by
      simp only [Expr.occurrences, List.forall_mem_append] at plain
      refine Watched.Resembles.bind (ih.evaluate beside callee plain.1) ?_
      intro function function' origins' sites' after after' along functionAlike
      refine Watched.Resembles.bind (ih.evaluateAll (beside.next along) arguments plain.2) ?_
      intro values values' origins'' sites'' last last' along' valuesAlike
      exact ih.call along'.alike function function' paren values values'
        (functionAlike.grow along'.origins along'.sites) valuesAlike

lemma evaluateAll_succ (ih : RenamedRun texts r n)
    (beside : Beside texts r regions here origins sites machine machine') :
    ∀ values : List Expr, (∀ o ∈ Expr.occurrencesAll values, r.Plain o) →
      Watched.Resembles texts r origins sites machine.current
        (fun origins sites => List.Forall₂ (Value.Resembles texts r origins sites))
        (Watch.steps.evaluateAll (n + 1) (Expr.boundAll regions.frames values) here origins machine)
        (Action.evaluateAll (n + 1)
          (Expr.boundAll (regions.renamed r).frames (Expr.renamedAll r regions values)) machine')
  | [], _ => Watched.Resembles.pure beside.alike .nil
  | first :: others, plain => by
      simp only [Expr.occurrencesAll, List.forall_mem_append] at plain
      refine Watched.Resembles.bind (ih.evaluate beside first plain.1) ?_
      intro value value' origins' sites' after after' along valueAlike
      refine Watched.Resembles.bind (ih.evaluateAll (beside.next along) others plain.2) ?_
      intro values values' origins'' sites'' last last' along' valuesAlike
      exact Watched.Resembles.pure along'.alike
        (.cons (valueAlike.grow along'.origins along'.sites) valuesAlike)

lemma evaluateOr_succ (ih : RenamedRun texts r n)
    (beside : Beside texts r regions here origins sites machine machine') :
    ∀ value : Option Expr, (∀ o ∈ Expr.occurrences? value, r.Plain o) →
      Watched.Resembles texts r origins sites machine.current (ResemblingValue texts r)
        (Watch.steps.evaluateOr (n + 1) (value.map (Expr.bound regions.frames)) here origins machine)
        (Action.evaluateOr (n + 1) ((value.map (Expr.renamed r regions)).map
          (Expr.bound (regions.renamed r).frames)) machine')
  | none, _ => Watched.Resembles.pure beside.alike (Value.resembles_self fun _ _ h => by cases h)
  | some value, plain => ih.evaluate beside value plain

/-! ## Calls -/

lemma call_succ (ih : RenamedRun texts r n) (clean : r.Clean texts)
    (alike : machine.Resembles texts r origins sites machine') (paren : Token)
    {arguments arguments' : List Value}
    (argumentsAlike : List.Forall₂ (Value.Resembles texts r origins sites) arguments arguments') :
    ∀ callee callee' : Value, callee.Resembles texts r origins sites callee' →
      Watched.Resembles texts r origins sites machine.current (ResemblingValue texts r)
        (Watch.steps.call (n + 1) callee paren arguments here origins machine)
        (Action.call (n + 1) callee' paren arguments' machine')
  | .function event closure, _, calleeAlike => by
      obtain ⟨declared, regions, body, origin, stands, shape, rfl, display, labelled⟩ := calleeAlike
      rw [Steps.call, Steps.ofCall, Action.call]
      rw [List.length_map, ← argumentsAlike.length_eq]
      split
      · have names : ∀ parameter ∈ closure.parameters, parameter.lexeme ≠ r.new := by
          intro parameter listed eq
          refine clean.names stands ?_
          rw [Stmt.names, ← eq]
          exact List.mem_append_left _ (List.mem_cons_of_mem _ (List.mem_map_of_mem listed))
        refine Watched.Resembles.bind (resembles_openScope alike closure.scope declared.place) ?_
        rintro _ scope origins' sites' after after' along ⟨rfl, labelled_⟩
        refine Watched.Resembles.bind (resembles_bindAll along.alike labelled_ names
          (argumentsAlike.imp fun _ _ h => h.grow along.origins along.sites)) ?_
        intro _ _ origins'' sites'' last last' along' _
        have origin' : origins''[event]? = some declared := by
          obtain ⟨later, rfl⟩ := along.origins.trans along'.origins
          rw [List.getElem?_append_left (List.getElem?_eq_some_iff.mp origin).1, origin]
        rw [Watch.steps_enters, origin', Option.getD_some]
        -- the body stands beside the renamed body in the new scope
        have scope' : sites''[scope]? = some (some declared.place) :=
          getElem?_left along'.sites labelled_
        have inside := Beside.inside along'.alike scope'
          (labelled.grow (along.sites.trans along'.sites))
          (by rw [Regions.sites_enter, Regions.sites_declare, display])
          (clean.lacks stands.function)
        have run := ih.executeAll inside 0 body stands.function
        rw [← shape] at run
        refine Watched.Resembles.bind (Watched.Resembles.within along'.alike run) ?_
        · intro completion completion' origins₃ sites₃ end_ end' along₃ completionAlike
          cases completionAlike with
          | normal =>
              exact Watched.Resembles.pure along₃.alike (Value.resembles_self fun _ _ h => by cases h)
          | returned value => exact Watched.Resembles.pure along₃.alike value
      · exact resembles_fail alike _ _
  | .native index arity, _, calleeAlike => by
      obtain rfl := calleeAlike
      rw [Steps.call, Steps.ofCall, Action.call]
      rw [← argumentsAlike.length_eq]
      split
      · exact resembles_callNative alike index paren arguments arguments'
      · exact resembles_fail alike _ _
  | .nil, _, rfl | .bool _, _, rfl | .number _, _, rfl | .text _, _, rfl =>
      resembles_fail alike _ _

/-! ## Statements -/

/-- Expressions of statements of an accepted program are plain. -/
lemma plain_of_stands (accepted : Accepted texts) (clean : r.Clean texts) {stmt : Stmt}
    {around : Regions} {place : Place} (stands : Stands texts around place (.one stmt))
    {value : Expr} (mem : (regions, value) ∈ stmt.expressions around) :
    ∀ o ∈ value.occurrences, r.Plain o := by
  obtain ⟨⟨_, unbound⟩, _⟩ := stands.accepted accepted
  have names := clean.names stands
  intro o occurs
  obtain ⟨occurs', name⟩ := Stmt.mem_of_mem_expressions mem o occurs
  exact ⟨unbound o occurs', fun h => names (h ▸ name)⟩

lemma evaluateOr_bound (ih : RenamedRun texts r n) (accepted : Accepted texts)
    (clean : r.Clean texts) (beside : Beside texts r regions here origins sites machine machine')
    {stmt : Stmt} {around : Regions} {place : Place} (stands : Stands texts around place (.one stmt)) :
    ∀ value : Option Expr,
      (∀ inner, value = some inner → (regions, inner) ∈ stmt.expressions around) →
      Watched.Resembles texts r origins sites machine.current (ResemblingValue texts r)
        (Watch.steps.evaluateOr n (value.map (Expr.bound regions.frames)) here origins machine)
        (Action.evaluateOr n ((value.map (Expr.renamed r regions)).map
          (Expr.bound (regions.renamed r).frames)) machine')
  | none, _ => ih.evaluateOr beside none (by simp [Expr.occurrences?])
  | some inner, mem =>
      ih.evaluateOr beside (some inner) (plain_of_stands accepted clean stands (mem inner rfl))

/-- A part of the statement at a place is done beside the renamed part. -/
lemma execute_part (ih : RenamedRun texts r n)
    (beside : Beside texts r regions here origins sites machine machine') {stmt : Stmt} (turn : Nat)
    (stands : Stands texts regions (turn :: here.place) (.one stmt)) :
    Watched.Resembles texts r origins sites machine.current (Completion.Resembles texts r)
      (Watch.steps.execute n (stmt.bound regions.frames) (here.turn turn) origins machine)
      (Action.execute n ((stmt.renamed r regions (turn :: here.place)).bound
        (regions.renamed r).frames) machine') := by
  have part : Beside texts r regions (here.turn turn) origins sites machine machine' :=
    ⟨beside.alike, ⟨beside.aligned.display, beside.aligned.labelled, beside.aligned.innermost⟩,
      beside.lacks⟩
  exact ih.execute part stmt stands

lemma execute_succ (ih : RenamedRun texts r n) (accepted : Accepted texts) (clean : r.Clean texts)
    (beside : Beside texts r regions here origins sites machine machine') :
    ∀ stmt : Stmt, Stands texts regions here.place (.one stmt) →
      Watched.Resembles texts r origins sites machine.current (Completion.Resembles texts r)
        (Watch.steps.execute (n + 1) (stmt.bound regions.frames) here origins machine)
        (Action.execute (n + 1) ((stmt.renamed r regions here.place).bound
          (regions.renamed r).frames) machine')
  | .expression value, stands => by
      have plain := plain_of_stands accepted clean stands (List.mem_singleton_self _)
      refine Watched.Resembles.bind (ih.evaluate beside value plain) ?_
      intro _ _ origins' sites' after after' along _
      exact Watched.Resembles.pure along.alike .normal
  | .print value, stands => by
      have plain := plain_of_stands accepted clean stands (List.mem_singleton_self _)
      refine Watched.Resembles.bind (ih.evaluate beside value plain) ?_
      intro found found' origins' sites' after after' along foundAlike
      rw [foundAlike.alike.shown_eq]
      refine Watched.Resembles.bind (resembles_print along.alike found.shown) ?_
      intro _ _ origins'' sites'' last last' along' _
      exact Watched.Resembles.pure along'.alike .normal
  | .variable name initializer, stands => by
      have notNew : name.lexeme ≠ r.new := by
        intro h
        exact clean.names stands (by rw [Stmt.names, ← h]; exact List.mem_cons_self)
      -- the initializer stands in regions that have the variable already
      have declared : Beside texts r (regions.declare name) here origins sites machine machine' :=
        ⟨beside.alike, beside.aligned.of_sites (Regions.sites_declare _ _),
          beside.lacks.declare notNew⟩
      have valueAlike := ih.evaluateOr_bound accepted clean declared stands initializer
        (fun inner h => by simp [Stmt.expressions, h])
      rw [Regions.renamed_declare, Regions.frames_declare, Regions.frames_declare] at valueAlike
      refine Watched.Resembles.bind valueAlike ?_
      intro found found' origins' sites' after after' along foundAlike
      have next := beside.next along
      refine Watched.Resembles.bind
        (resembles_define next.alike next.aligned.innermost notNew foundAlike) ?_
      intro _ _ origins'' sites'' last last' along' _
      exact Watched.Resembles.pure along'.alike .normal
  | .block body, stands => by
      refine Watched.Resembles.bind (P := fun _ _ outer outer' => outer' = outer)
        (Watched.Resembles.done rfl rfl beside.alike.stays beside.alike.current_eq) ?_
      rintro _ outer origins' sites' after after' along rfl
      refine Watched.Resembles.bind (resembles_openScope along.alike outer here.place) ?_
      rintro _ scope origins'' sites'' last last' along' ⟨rfl, labelled_⟩
      have labelled := beside.aligned.labelled.grow (along.sites.trans along'.sites)
      have inside := Beside.inside along'.alike labelled_ labelled
        (by rw [beside.aligned.display]; rfl) (clean.lacks stands.block)
      exact Watched.Resembles.within along'.alike (ih.executeAll inside 0 body stands.block)
  | .branch condition consequent alternative, stands => by
      have plain := plain_of_stands accepted clean stands (List.mem_singleton_self _)
      refine Watched.Resembles.bind (ih.evaluate beside condition plain) ?_
      intro holds holds' origins' sites' after after' along holdsAlike
      rw [holdsAlike.alike.isTruthy_eq]
      have next := beside.next along
      split
      · exact ih.execute_part next 0 stands.consequent
      · cases alternative with
        | none => exact Watched.Resembles.pure along.alike .normal
        | some stmt =>
            have other := ih.execute_part (next.behind clean stands.alternative) 1
              stands.alternative
            rw [Regions.renamed_behind clean stands.consequent, Regions.frames_behind,
              Regions.frames_behind] at other
            exact other
  | .loop condition body, stands => by
      have plain := plain_of_stands accepted clean stands (List.mem_singleton_self _)
      refine Watched.Resembles.bind (ih.evaluate beside condition plain) ?_
      intro holds holds' origins' sites' after after' along holdsAlike
      rw [holdsAlike.alike.isTruthy_eq]
      have next := beside.next along
      split
      · refine Watched.Resembles.bind (ih.execute_part next 0 stands.loop) ?_
        intro completion completion' origins'' sites'' last last' along' completionAlike
        cases completionAlike with
        | normal => exact ih.execute (next.next along') _ stands
        | returned valueAlike => exact Watched.Resembles.pure along'.alike (.returned valueAlike)
      · exact Watched.Resembles.pure along.alike .normal
  | .function name parameters body, stands => by
      have declare := resembles_declare clean beside.alike beside.aligned stands
      rw [Regions.renamed_enter, Regions.renamed_declare, clean.token_function stands,
        Regions.frames_enter, Regions.frames_enter, Regions.frames_declare,
        Regions.frames_declare] at declare
      exact declare.weaken fun origins' sites' completion completion' h => by
        rw [h.1, h.2]
        exact .normal
  | .return_ keyword value, stands => by
      have valueAlike := ih.evaluateOr_bound accepted clean beside stands value
        (fun inner h => by simp [Stmt.expressions, h])
      refine Watched.Resembles.bind valueAlike ?_
      intro found found' origins' sites' after after' along foundAlike
      exact Watched.Resembles.pure along.alike (.returned foundAlike)

lemma executeAll_succ (ih : RenamedRun texts r n) (clean : r.Clean texts)
    (beside : Beside texts r regions here origins sites machine machine') (index : Nat) :
    ∀ stmts : List Stmt, Stands texts regions here.place (.several index stmts) →
      Watched.Resembles texts r origins sites machine.current (Completion.Resembles texts r)
        (Watch.steps.executeAll (n + 1) (Stmt.boundAll regions.frames stmts) (here.turn index) origins
          machine)
        (Action.executeAll (n + 1) (Stmt.boundAll (regions.renamed r).frames
          (Stmt.renamedAll r regions here.place index stmts)) machine')
  | [], _ => Watched.Resembles.pure beside.alike .normal
  | first :: others, stands => by
      refine Watched.Resembles.bind (ih.execute_part beside index stands.first) ?_
      intro completion completion' origins' sites' after after' along completionAlike
      cases completionAlike with
      | normal =>
          have othersAlike := ih.executeAll ((beside.next along).behind clean stands.next) (index + 1)
            others stands.next
          rw [Regions.renamed_behind clean stands.first, Regions.frames_behind,
            Regions.frames_behind] at othersAlike
          exact othersAlike
      | returned value => exact Watched.Resembles.pure along.alike (.returned value)

end RenamedRun

/-- **A run of the renamed program stays beside the run of the program**, for every allowance. -/
theorem Watch.renamed {texts : Nat → List Stmt} {r : Renaming} (accepted : Accepted texts)
    (clean : r.Clean texts) : ∀ n, RenamedRun texts r n
  | 0 => by
      constructor <;> intros <;> exact Watched.Resembles.exhausted
  | n + 1 => by
      have ih := Watch.renamed accepted clean n
      constructor
      case evaluate => exact fun beside => ih.evaluate_succ beside
      case evaluateAll => exact fun beside => ih.evaluateAll_succ beside
      case call =>
        exact fun alike callee callee' paren _ _ calleeAlike arguments =>
          ih.call_succ clean alike paren arguments callee callee' calleeAlike
      case execute => exact fun beside => ih.execute_succ accepted clean beside
      case evaluateOr => exact fun beside => ih.evaluateOr_succ beside
      case executeAll => exact fun beside => ih.executeAll_succ clean beside

end LoxLang
