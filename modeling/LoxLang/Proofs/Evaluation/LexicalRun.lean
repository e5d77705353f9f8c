import LoxLang.Proofs.Evaluation.Keeps

/-!
# A whole run keeps the scopes in place

**`Watch.lexical`** is one induction on the allowance over all functions of a run at once, with a lemma
for expressions, for calls and for statements.  Expressions are spoken about through their
occurrences, which binding has settled; statements through the place where they stand in the source.
-/

namespace LoxLang

/-- What a run keeps when it may take `n` steps.  An expression may be bound in more than the regions
that the scopes fit, which happens in the initializer of a variable. -/
structure LexicalRun (texts : Nat → List Stmt) (n : Nat) : Prop where
  evaluate : ∀ {regions here origins machine}, Ready texts regions here origins machine →
    ∀ value : Expr, (∀ o ∈ value.occurrences, Settled texts regions here.place o) →
      Watched.Keeps texts origins machine (PlacedValue texts)
        (Watch.steps.evaluate n value here origins machine)
  evaluateAll : ∀ {regions here origins machine}, Ready texts regions here origins machine →
    ∀ values : List Expr,
      (∀ o ∈ Expr.occurrencesAll values, Settled texts regions here.place o) →
      Watched.Keeps texts origins machine
        (fun origins store found => ∀ value ∈ found, value.Placed texts origins store)
        (Watch.steps.evaluateAll n values here origins machine)
  call : ∀ {here origins} {machine : Machine}, machine.Placed texts origins →
    ∀ (callee : Value) (paren : Token) (arguments : List Value),
      callee.Placed texts origins machine.store →
      (∀ value ∈ arguments, value.Placed texts origins machine.store) →
      Watched.Keeps texts origins machine (PlacedValue texts)
        (Watch.steps.call n callee paren arguments here origins machine)
  execute : ∀ {regions here origins machine}, Ready texts regions here origins machine →
    ∀ stmt : Stmt, Stands texts regions here.place (.one stmt) →
      Watched.Keeps texts origins machine
        (fun origins store completion => completion.Placed texts origins store
          ∧ (completion = .normal →
              Fits store (regions.behind stmt) here.display machine.current))
        (Watch.steps.execute n (stmt.bound regions.frames) here origins machine)
  evaluateOr : ∀ {regions here origins machine}, Ready texts regions here origins machine →
    ∀ value : Option Expr,
      (∀ o ∈ Expr.occurrences? value, Settled texts regions here.place o) →
      Watched.Keeps texts origins machine (PlacedValue texts)
        (Watch.steps.evaluateOr n value here origins machine)
  executeAll : ∀ {regions here origins machine}, Ready texts regions here origins machine →
    ∀ (index : Nat) (stmts : List Stmt), Stands texts regions here.place (.several index stmts) →
      Watched.Keeps texts origins machine
        (fun origins store completion => completion.Placed texts origins store)
        (Watch.steps.executeAll n (Stmt.boundAll regions.frames stmts) (here.turn index) origins
          machine)

namespace LexicalRun

variable {texts : Nat → List Stmt} {n : Nat} {regions : Regions} {here : Position}
  {origins : List Position} {machine : Machine}

/-! ## Expressions -/

lemma evaluate_succ (ih : LexicalRun texts n) (ready : Ready texts regions here origins machine) :
    ∀ value : Expr, (∀ o ∈ value.occurrences, Settled texts regions here.place o) →
      Watched.Keeps texts origins machine (PlacedValue texts)
        (Watch.steps.evaluate (n + 1) value here origins machine)
  | .literal constant, _ => Watched.Keeps.pure ready.placed (constant.placed _ _)
  | .group inner, settled => ih.evaluate ready inner settled
  | .unary operator operand, settled => by
      refine Watched.Keeps.bind (ih.evaluate ready operand settled) ?_
      intro value origins' after _ follows _
      exact keeps_ofExcept follows.placed (operatorResult_prefixed _ _)
  | .binary left operator right, settled => by
      simp only [Expr.occurrences, List.forall_mem_append] at settled
      refine Watched.Keeps.bind (ih.evaluate ready left settled.1) ?_
      intro value origins' after _ follows _
      refine Watched.Keeps.bind (ih.evaluate (ready.next follows) right settled.2) ?_
      intro value' origins'' after' _ follows' _
      rw [Watch.steps_meets]
      exact keeps_ofExcept follows'.placed (operatorResult_combined _ _ _)
  | .logical left operator right, settled => by
      simp only [Expr.occurrences, List.forall_mem_append] at settled
      refine Watched.Keeps.bind (ih.evaluate ready left settled.1) ?_
      intro value origins' after _ follows valuePlaced
      split
      · exact Watched.Keeps.pure follows.placed valuePlaced
      · exact ih.evaluate (ready.next follows) right settled.2
  | .variable name hops, settled =>
      keeps_look ready name hops (settled _ (List.mem_singleton_self _))
  | .assign name value hops, settled => by
      simp only [Expr.occurrences, List.forall_mem_append, List.forall_mem_singleton] at settled
      refine Watched.Keeps.bind (ih.evaluate ready value settled.1) ?_
      intro found origins' after _ follows foundPlaced
      exact keeps_assign (ready.next follows) name hops settled.2 foundPlaced
  | .call callee paren arguments, settled => by
      simp only [Expr.occurrences, List.forall_mem_append] at settled
      refine Watched.Keeps.bind (ih.evaluate ready callee settled.1) ?_
      intro function origins' after _ follows functionPlaced
      refine Watched.Keeps.bind (ih.evaluateAll (ready.next follows) arguments settled.2) ?_
      intro values origins'' after' longer follows' valuesPlaced
      exact ih.call follows'.placed function paren values
        (functionPlaced.grow longer follows'.grows) valuesPlaced

lemma evaluateAll_succ (ih : LexicalRun texts n)
    (ready : Ready texts regions here origins machine) :
    ∀ values : List Expr, (∀ o ∈ Expr.occurrencesAll values, Settled texts regions here.place o) →
      Watched.Keeps texts origins machine
        (fun origins store found => ∀ value ∈ found, value.Placed texts origins store)
        (Watch.steps.evaluateAll (n + 1) values here origins machine)
  | [], _ => Watched.Keeps.pure ready.placed (by simp)
  | first :: others, settled => by
      simp only [Expr.occurrencesAll, List.forall_mem_append] at settled
      refine Watched.Keeps.bind (ih.evaluate ready first settled.1) ?_
      intro value origins' after _ follows valuePlaced
      refine Watched.Keeps.bind (ih.evaluateAll (ready.next follows) others settled.2) ?_
      intro values origins'' after' longer follows' valuesPlaced
      refine Watched.Keeps.pure follows'.placed ?_
      rw [List.forall_mem_cons]
      exact ⟨valuePlaced.grow longer follows'.grows, valuesPlaced⟩

/-! ## Calls -/

/-- Binding parameters to arguments keeps step with declaring the parameters. -/
lemma fits_bindAll {display : List Instance} {scope : Nat} :
    ∀ {parameters : List Token} {arguments : List Value} {regions : Regions} {machine : Machine},
      machine.Placed texts origins → Fits machine.store regions display scope →
      arguments.length = parameters.length →
      (∀ value ∈ arguments, value.Placed texts origins machine.store) →
      ∃ after, Action.bindAll scope parameters arguments machine = .done () after
        ∧ Follows texts origins machine after
        ∧ Fits after.store (parameters.foldl Regions.declare regions) display scope
  | [], arguments, regions, machine, placed, fits, length, _ => by
      rw [List.length_nil, List.length_eq_zero_iff] at length
      subst length
      exact ⟨_, rfl, placed.follows, fits⟩
  | parameter :: parameters, [], _, _, _, _, length, _ => by simp at length
  | parameter :: parameters, argument :: arguments, regions, machine, placed, fits, length,
      values => by
      rw [List.forall_mem_cons] at values
      have follows := placed.define scope parameter.lexeme values.1
      obtain ⟨after, bind, follows', fits'⟩ := fits_bindAll follows.placed
        (fits.declare parameter argument)
        (by simpa using length)
        (fun value valuePlaced => (values.2 value valuePlaced).grow (List.prefix_refl _) follows.grows)
      exact ⟨after, bind, ⟨follows.grows.trans follows'.grows,
        follows'.current.trans follows.current, follows'.placed⟩, fits'⟩

/-- A new scope around which the scopes fit some regions is an instance of a region that declares
nothing yet. -/
lemma fits_child {store : Store Value} {display : List Instance} {outer : Nat}
    (fits : Fits store regions display outer) (globals : 0 < store.scopes.size) (site : Place) :
    Fits (store.child outer).2 (⟨site, []⟩ :: regions) (⟨site, store.scopes.size⟩ :: display)
      store.scopes.size := by
  refine Fits.scope ?_ (by simp) (fits.grow (Store.Grows.child store outer))
  rw [Store.outer?_child, if_pos rfl, if_pos (fits.lt_size globals)]

lemma call_succ (ih : LexicalRun texts n) (placed : machine.Placed texts origins) (paren : Token)
    (arguments : List Value) : ∀ callee : Value, callee.Placed texts origins machine.store →
      (∀ value ∈ arguments, value.Placed texts origins machine.store) →
      Watched.Keeps texts origins machine (PlacedValue texts)
        (Watch.steps.call (n + 1) callee paren arguments here origins machine)
  | .function event closure, calleePlaced, values => by
      obtain ⟨declared, regions, body, origin, stands, shape, fits⟩ := calleePlaced
      rw [Steps.call, Steps.ofCall]
      split
      · next length =>
        -- the new scope is an instance of the function, around it those of its declaration
        have opened := placed.child closure.scope
        have new := fits_child fits placed.globals declared.place
        refine Watched.Keeps.bind (P := fun _ store scope => scope = machine.store.scopes.size
          ∧ store = (machine.store.child closure.scope).2)
          (Watched.Keeps.done rfl opened ⟨rfl, rfl⟩) ?_
        rintro scope origins' after longer follows ⟨rfl, same⟩
        have values' : ∀ value ∈ arguments, value.Placed texts origins' after.store :=
          fun value valuePlaced => (values value valuePlaced).grow longer follows.grows
        rw [← same] at new
        obtain ⟨bound, bind, follows', fits'⟩ := fits_bindAll follows.placed new length values'
        refine Watched.Keeps.bind (P := fun _ store _ => store = bound.store)
          (Watched.Keeps.done bind follows' rfl) ?_
        intro _ origins'' after' longer' follows'' store'
        -- the body runs where the function was declared
        have origin' : (origins''[event]?).getD ⟨[], []⟩ = declared := by
          obtain ⟨later, rfl⟩ := longer.trans longer'
          rw [List.getElem?_append_left (List.getElem?_eq_some_iff.mp origin).1, origin]
          rfl
        have inside : Ready texts ((regions.declare closure.name).enter declared.place
            closure.parameters) (declared.enter machine.store.scopes.size) origins''
            { after' with current := machine.store.scopes.size } :=
          ⟨by rw [store']; exact fits', follows''.placed.enter _⟩
        rw [Watch.steps_enters, origin']
        refine Watched.Keeps.bind (P := fun origins store completion =>
          completion.Placed texts origins store) (Watched.Keeps.within ?_) ?_
        · rw [shape]
          exact ih.executeAll inside 0 body stands.function
        · intro completion origins₄ end_ _ ends completionPlaced
          cases completion with
          | normal => exact Watched.Keeps.pure ends.placed trivial
          | returned value => exact Watched.Keeps.pure ends.placed completionPlaced
      · exact keeps_fail placed (fun _ h => by cases h)
  | .native index arity, _, values => by
      rw [Steps.call, Steps.ofCall]
      split
      · exact keeps_callNative placed index paren values
      · exact keeps_fail placed (fun _ h => by cases h)
  | .nil, _, _ | .bool _, _, _ | .number _, _, _ | .text _, _, _ =>
      keeps_fail placed (fun _ h => by cases h)

/-! ## Statements -/

lemma evaluateOr_succ (ih : LexicalRun texts n)
    (ready : Ready texts regions here origins machine) : ∀ value : Option Expr,
      (∀ o ∈ Expr.occurrences? value, Settled texts regions here.place o) →
      Watched.Keeps texts origins machine (PlacedValue texts)
        (Watch.steps.evaluateOr (n + 1) value here origins machine)
  | none, _ => Watched.Keeps.pure ready.placed trivial
  | some value, settled => ih.evaluate ready value settled

/-- What an expression in a statement yields once the statement is bound. -/
lemma evaluate_bound (ih : LexicalRun texts n) (accepted : Accepted texts)
    (ready : Ready texts regions here origins machine) {stmt : Stmt}
    (stands : Stands texts regions here.place (.one stmt)) {around : Regions} {value : Expr}
    (mem : (around, value) ∈ stmt.expressions regions) :
    Watched.Keeps texts origins machine (PlacedValue texts)
      (Watch.steps.evaluate n (value.bound around.frames) here origins machine) :=
  ih.evaluate ready _ (stands.settled accepted mem)

lemma evaluateOr_bound (ih : LexicalRun texts n) (accepted : Accepted texts)
    (ready : Ready texts regions here origins machine) {stmt : Stmt}
    (stands : Stands texts regions here.place (.one stmt)) (around : Regions) :
    ∀ value : Option Expr,
      (∀ inner, value = some inner → (around, inner) ∈ stmt.expressions regions) →
      Watched.Keeps texts origins machine (PlacedValue texts)
        (Watch.steps.evaluateOr n (value.map (Expr.bound around.frames)) here origins machine)
  | none, _ => ih.evaluateOr ready none (by simp [Expr.occurrences?])
  | some inner, mem =>
      ih.evaluateOr ready _ (stands.settled accepted (mem inner rfl))

/-- A statement that declares nothing, done at a part of the position, ends where it began. -/
lemma execute_part (ih : LexicalRun texts n) (ready : Ready texts regions here origins machine)
    {stmt : Stmt} (nothing : stmt.declared = []) (index : Nat)
    (stands : Stands texts regions (index :: here.place) (.one stmt)) :
    Watched.Keeps texts origins machine
      (fun origins store completion => completion.Placed texts origins store
        ∧ (completion = .normal → Fits store regions here.display machine.current))
      (Watch.steps.execute n (stmt.bound regions.frames) (here.turn index) origins machine) := by
  have turned : Ready texts regions (here.turn index) origins machine :=
    ⟨ready.fits, ready.placed⟩
  have part := ih.execute turned stmt stands
  rw [Regions.behind_eq_self nothing] at part
  exact part

lemma execute_succ (ih : LexicalRun texts n) (accepted : Accepted texts)
    (ready : Ready texts regions here origins machine) :
    ∀ stmt : Stmt, Stands texts regions here.place (.one stmt) →
      Watched.Keeps texts origins machine
        (fun origins store completion => completion.Placed texts origins store
          ∧ (completion = .normal →
              Fits store (regions.behind stmt) here.display machine.current))
        (Watch.steps.execute (n + 1) (stmt.bound regions.frames) here origins machine)
  | .expression value, stands => by
      refine Watched.Keeps.bind
        (ih.evaluate_bound accepted ready stands (List.mem_singleton_self _)) ?_
      intro _ origins' after _ follows _
      refine Watched.Keeps.pure follows.placed ⟨trivial, fun _ => ?_⟩
      rw [Regions.behind_eq_self rfl, ← follows.current]
      exact (ready.next follows).fits
  | .print value, stands => by
      refine Watched.Keeps.bind
        (ih.evaluate_bound accepted ready stands (List.mem_singleton_self _)) ?_
      intro value origins' after _ follows _
      refine Watched.Keeps.bind (keeps_print follows.placed value.shown) ?_
      intro _ origins'' after' _ follows' _
      refine Watched.Keeps.pure follows'.placed ⟨trivial, fun _ => ?_⟩
      rw [Regions.behind_eq_self rfl, ← follows.current, ← follows'.current]
      exact ((ready.next follows).next follows').fits
  | .variable name initializer, stands => by
      have initializerKeeps := ih.evaluateOr_bound accepted ready stands (regions.declare name)
        initializer (fun inner h => by simp [Stmt.expressions, h])
      rw [Regions.frames_declare] at initializerKeeps
      refine Watched.Keeps.bind initializerKeeps ?_
      intro value origins' after _ follows valuePlaced
      refine Watched.Keeps.bind (keeps_define (ready.next follows) name valuePlaced) ?_
      intro _ origins'' after' _ follows' fits
      refine Watched.Keeps.pure follows'.placed ⟨trivial, fun _ => ?_⟩
      rw [← follows.current]
      exact fits
  | .block body, stands => by
      have new := fits_child ready.fits ready.placed.globals here.place
      refine Watched.Keeps.bind (P := fun _ store outer => store = machine.store
        ∧ outer = machine.current) (Watched.Keeps.done rfl ready.placed.follows ⟨rfl, rfl⟩) ?_
      rintro outer origins' after _ follows ⟨same, rfl⟩
      refine Watched.Keeps.bind (P := fun _ store scope =>
        store = (machine.store.child machine.current).2 ∧ scope = machine.store.scopes.size)
        (Watched.Keeps.done rfl (follows.placed.child machine.current) (by
          rw [same]
          exact ⟨rfl, rfl⟩)) ?_
      rintro scope origins'' after' _ follows' ⟨store', rfl⟩
      rw [← store'] at new
      have inside : Ready texts (⟨here.place, []⟩ :: regions)
          (here.enter machine.store.scopes.size) origins''
          { after' with current := machine.store.scopes.size } :=
        ⟨new, follows'.placed.enter _⟩
      refine Watched.Keeps.within ((ih.executeAll inside 0 body stands.block).weaken ?_)
      intro origins₃ last completion later completionPlaced
      refine ⟨completionPlaced, fun _ => ?_⟩
      rw [Regions.behind_eq_self rfl]
      exact ready.fits.grow (follows.grows.trans (follows'.grows.trans later.grows))
  | .branch condition consequent alternative, stands => by
      obtain ⟨⟨⟨consequentPlain, _, alternativePlain, _⟩, _⟩, _⟩ := stands.accepted accepted
      have nothing : (Stmt.branch condition consequent alternative).declared = [] := by
        rw [Stmt.declared, consequentPlain, alternativePlain, List.append_nil]
      refine Watched.Keeps.bind
        (ih.evaluate_bound accepted ready stands (List.mem_singleton_self _)) ?_
      intro holds origins' after _ follows _
      have next := ready.next follows
      rw [← follows.current, Regions.behind_eq_self nothing]
      split
      · exact ih.execute_part next consequentPlain 0 stands.consequent
      · cases alternative with
        | none => exact Watched.Keeps.pure follows.placed ⟨trivial, fun _ => next.fits⟩
        | some stmt =>
            have other := stands.alternative
            rw [Regions.behind_eq_self consequentPlain] at other
            rw [Frames.behind_eq_self consequentPlain]
            exact ih.execute_part next alternativePlain 1 other
  | .loop condition body, stands => by
      obtain ⟨⟨⟨bodyPlain, _⟩, _⟩, _⟩ := stands.accepted accepted
      have nothing : (Stmt.loop condition body).declared = [] := bodyPlain
      refine Watched.Keeps.bind
        (ih.evaluate_bound accepted ready stands (List.mem_singleton_self _)) ?_
      intro holds origins' after _ follows _
      have next := ready.next follows
      rw [← follows.current, Regions.behind_eq_self nothing]
      split
      · refine Watched.Keeps.bind (ih.execute_part next bodyPlain 0 stands.loop) ?_
        rintro completion origins'' last _ later ⟨completionPlaced, fits⟩
        cases completion with
        | normal =>
            -- the next round begins where this one did
            have round := ih.execute (next.next later) _ stands
            rw [Regions.behind_eq_self nothing, later.current] at round
            exact round
        | returned value => exact Watched.Keeps.pure later.placed ⟨completionPlaced, fun h => by cases h⟩
      · exact Watched.Keeps.pure follows.placed ⟨trivial, fun _ => next.fits⟩
  | .function name parameters body, stands => keeps_declare ready stands
  | .return_ keyword value, stands => by
      refine Watched.Keeps.bind (ih.evaluateOr_bound accepted ready stands regions value
        (fun inner h => by simp [Stmt.expressions, h])) ?_
      intro found origins' after _ follows foundPlaced
      exact Watched.Keeps.pure follows.placed ⟨foundPlaced, fun h => by cases h⟩

lemma executeAll_succ (ih : LexicalRun texts n)
    (ready : Ready texts regions here origins machine) (index : Nat) : ∀ stmts : List Stmt,
      Stands texts regions here.place (.several index stmts) →
      Watched.Keeps texts origins machine
        (fun origins store completion => completion.Placed texts origins store)
        (Watch.steps.executeAll (n + 1) (Stmt.boundAll regions.frames stmts) (here.turn index) origins
          machine)
  | [], _ => Watched.Keeps.pure ready.placed trivial
  | first :: others, stands => by
      have firstReady : Ready texts regions (here.turn index) origins machine :=
        ⟨ready.fits, ready.placed⟩
      refine Watched.Keeps.bind (ih.execute firstReady first stands.first) ?_
      rintro completion origins' after _ follows ⟨completionPlaced, fits⟩
      cases completion with
      | normal =>
          rw [← follows.current] at fits
          have othersReady : Ready texts (regions.behind first) here origins' after :=
            ⟨fits rfl, follows.placed⟩
          rw [← Regions.frames_behind]
          exact ih.executeAll othersReady (index + 1) others stands.next
      | returned value => exact Watched.Keeps.pure follows.placed completionPlaced

end LexicalRun

/-- **Whatever runs in an accepted session, the scopes stay in place**, for every allowance. -/
theorem Watch.lexical (accepted : Accepted texts) : ∀ n, LexicalRun texts n
  | 0 => by
      constructor <;> intros <;> exact Watched.Keeps.exhausted
  | n + 1 => by
      have ih := Watch.lexical accepted n
      constructor
      case evaluate => exact fun ready => ih.evaluate_succ ready
      case evaluateAll => exact fun ready => ih.evaluateAll_succ ready
      case call =>
        exact fun placed callee paren arguments => ih.call_succ placed paren arguments callee
      case execute => exact fun ready => ih.execute_succ accepted ready
      case evaluateOr => exact fun ready => ih.evaluateOr_succ ready
      case executeAll => exact fun ready => ih.executeAll_succ ready

end LoxLang
