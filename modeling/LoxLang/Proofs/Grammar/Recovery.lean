import Mathlib
import LoxLang.Proofs.Grammar.InRange
import LoxLang.Proofs.Grammar.Journal
import LoxLang.Proofs.Grammar.Skipping
import LoxLang.Proofs.Grammar.Steady

/-!
# An error costs one declaration

What the parser does with an error that stops a declaration, read off its journal.  The error is at the
token that the parser has reached, and what was read before it is behind.  Only the declaration that the
error stands in is given up: the list that the declaration belongs to keeps the statements before it and
goes on at the next place where one may start.

* `Stmt.Encloses` — the statements of a block are in a statement as they are.
* `Account.Holds` — what a journal says of the tokens between two indices.
* `Account.Holds.ordered` — errors come one behind the other, and only the end mark has more than one.
* `Accounted` — a reading whose journal holds; one lemma for each way to put readings together.
* **`Journaled.recovery_contained`** — the journal of a program holds.
-/

namespace LoxLang

open Program (beforeEnd endIndex located tokenAt)

/-! ## What a journal says -/

/-- A block or a body of a function, as it is, somewhere in a statement. -/
inductive Stmt.Encloses : Stmt → List Stmt → Prop
  | block (body : List Stmt) : Encloses (.block body) body
  | function (name : Token) (names : List Token) (body : List Stmt) :
      Encloses (.function name names body) body
  | inBlock {stmt : Stmt} {body inner : List Stmt} (member : stmt ∈ body)
      (encloses : stmt.Encloses inner) : Encloses (.block body) inner
  | consequent {condition : Expr} {stmt : Stmt} {alternative : Option Stmt} {inner : List Stmt}
      (encloses : stmt.Encloses inner) : Encloses (.branch condition stmt alternative) inner
  | alternative {condition : Expr} {consequent stmt : Stmt} {inner : List Stmt}
      (encloses : stmt.Encloses inner) : Encloses (.branch condition consequent (some stmt)) inner
  | loop {condition : Expr} {stmt : Stmt} {inner : List Stmt} (encloses : stmt.Encloses inner) :
      Encloses (.loop condition stmt) inner

lemma Stmt.Encloses.forLoop {stmt : Stmt} {inner : List Stmt} (encloses : stmt.Encloses inner)
    (initializer : Option Stmt) (condition increment : Option Expr) :
    (Stmt.forLoop initializer condition increment stmt).Encloses inner := by
  unfold Stmt.forLoop
  cases initializer <;> cases increment
  · exact .loop encloses
  · exact .loop (.inBlock List.mem_cons_self encloses)
  · exact .inBlock (List.mem_cons_of_mem _ List.mem_cons_self) (.loop encloses)
  · exact .inBlock (List.mem_cons_of_mem _ List.mem_cons_self)
      (.loop (.inBlock List.mem_cons_self encloses))

/-- Where a list of declarations ends: at the end mark, or at a token of the closing kind. -/
def AtClose (tokens : List Token) (closing : Option Kind) (index : Nat) : Prop :=
  index = endIndex tokens ∨ closing = some (tokenAt tokens index).kind

/-- A part of a journal. -/
inductive Account where
  | attempt (one : Attempt)
  /-- The declarations of a list up to its end. -/
  | declarations (closing : Option Kind) (attempts : List Attempt)
  /-- The blocks in one declaration. -/
  | bodies (lists : List (List Attempt))

namespace Account

variable {tokens : List Token}

/-- The errors that were raised, each with its index, in the order in which they were raised. -/
def raised : Account → List (SyntaxError × Nat)
  | attempt one => one.raised
  | declarations _ attempts => Attempt.raisedAll attempts
  | bodies lists => Attempt.raisedBodies lists

/-- **What a part of a journal says of the tokens from one index to another.** -/
inductive Holds (tokens : List Token) : Account → (start stop : Nat) → Prop
  /-- A statement is kept with all that was kept in its blocks. -/
  | kept {before after : Nat} {stmt : Stmt} {lists : List (List Attempt)}
      (inside : (bodies lists).Holds tokens before after)
      (encloses : ∀ list ∈ lists, stmt.Encloses (Attempt.statements list)) :
      (attempt (.kept before after stmt lists)).Holds tokens before after
  /-- All that was read of the declaration is before the error. -/
  | dropped {before place after : Nat} {error : SyntaxError} {lists : List (List Attempt)}
      (inside : (bodies lists).Holds tokens before place) (resumes : Resumes tokens place after) :
      (attempt (.dropped before error place after lists)).Holds tokens before after
  | stopped {closing : Option Kind} {start : Nat} (within : start ≤ endIndex tokens)
      (close : AtClose tokens closing start) : (declarations closing []).Holds tokens start start
  /-- A list goes on where its last declaration was over, whether that was kept or not. -/
  | next {closing : Option Kind} {start middle stop : Nat} {first : Attempt} {others : List Attempt}
      (continues : ¬ AtClose tokens closing start) (one : (attempt first).Holds tokens start middle)
      (rest : (declarations closing others).Holds tokens middle stop) :
      (declarations closing (first :: others)).Holds tokens start stop
  | plain {start stop : Nat} (forward : start ≤ stop) (within : stop ≤ endIndex tokens) :
      (bodies []).Holds tokens start stop
  | body {start first middle stop : Nat} {list : List Attempt} {others : List (List Attempt)}
      (forward : start ≤ first)
      (one : (declarations (some .rightBrace) list).Holds tokens first middle)
      (rest : (bodies others).Holds tokens middle stop) :
      (bodies (list :: others)).Holds tokens start stop

/-! ## The order of errors -/

/-- Errors between two indices, each behind the one before it unless they are at the end mark. -/
structure Ordered (tokens : List Token) (start stop : Nat) (errors : List (SyntaxError × Nat)) :
    Prop where
  forward : start ≤ stop
  within : stop ≤ endIndex tokens
  between : ∀ one ∈ errors, start ≤ one.2 ∧ one.2 ≤ stop ∧ (one.2 = stop → stop = endIndex tokens)
  sorted : errors.Pairwise fun one other =>
    one.2 ≤ other.2 ∧ (one.2 = other.2 → one.2 = endIndex tokens)

namespace Ordered

variable {start middle stop place after : Nat} {errors more : List (SyntaxError × Nat)}

lemma nil (forward : start ≤ stop) (within : stop ≤ endIndex tokens) : Ordered tokens start stop [] :=
  ⟨forward, within, by simp, .nil⟩

lemma append (first : Ordered tokens start middle errors) (second : Ordered tokens middle stop more) :
    Ordered tokens start stop (errors ++ more) where
  forward := first.forward.trans second.forward
  within := second.within
  between := by
    intro one raised
    rcases List.mem_append.mp raised with early | late
    · obtain ⟨low, high, last⟩ := first.between one early
      have forward := second.forward
      have within := second.within
      exact ⟨low, high.trans forward, fun same => by have := last (by omega); omega⟩
    · obtain ⟨low, high, last⟩ := second.between one late
      exact ⟨first.forward.trans low, high, last⟩
  sorted := by
    refine List.pairwise_append.mpr ⟨first.sorted, second.sorted, fun one early other late => ?_⟩
    obtain ⟨-, high, last⟩ := first.between one early
    obtain ⟨low, -, -⟩ := second.between other late
    exact ⟨high.trans low, fun same => by have := last (by omega); omega⟩

lemma single (error : SyntaxError) (resumes : Resumes tokens place after) :
    Ordered tokens place after [(error, place)] where
  forward := resumes.forward
  within := resumes.within
  between := by simpa using ⟨resumes.forward, resumes.stays⟩
  sorted := List.pairwise_singleton _ _

end Ordered

/-- **Errors are raised one behind the other**, and no two at one token but the end mark. -/
theorem Holds.ordered {account : Account} {start stop : Nat}
    (holds : account.Holds tokens start stop) : Ordered tokens start stop account.raised := by
  induction holds with
  | kept inside encloses ih => exact ih
  | dropped inside resumes ih => exact ih.append (.single _ resumes)
  | stopped within close => exact .nil le_rfl within
  | next continues one rest ihOne ihRest => exact ihOne.append ihRest
  | plain forward within => exact .nil forward within
  | body forward one rest ihOne ihRest =>
      have start' := (Ordered.nil forward (ihOne.forward.trans ihOne.within)).append ihOne
      exact start'.append ihRest

/-- A list of declarations goes on up to its end. -/
lemma Holds.close {closing : Option Kind} {attempts : List Attempt} {start stop : Nat}
    (holds : (declarations closing attempts).Holds tokens start stop) :
    AtClose tokens closing stop := by
  induction attempts generalizing start with
  | nil => cases holds with | stopped within close => exact close
  | cons first others ih => cases holds with | next continues one rest => exact ih rest

/-! ## Blocks in one declaration -/

lemma Holds.from_before {lists : List (List Attempt)} {start middle stop : Nat}
    (holds : (bodies lists).Holds tokens middle stop) (forward : start ≤ middle) :
    (bodies lists).Holds tokens start stop := by
  cases holds with
  | plain forward' within => exact .plain (forward.trans forward') within
  | body forward' one rest => exact .body (forward.trans forward') one rest

lemma Holds.append {lists more : List (List Attempt)} {start middle stop : Nat}
    (first : (bodies lists).Holds tokens start middle)
    (second : (bodies more).Holds tokens middle stop) :
    (bodies (lists ++ more)).Holds tokens start stop := by
  induction lists generalizing start with
  | nil =>
      cases first with
      | plain forward within => exact second.from_before forward
  | cons list lists ih =>
      cases first with
      | body forward one rest => exact .body forward one (ih rest)

end Account

/-! ## Readings whose journal holds -/

/-- The errors with the tokens that they are at. -/
def named (tokens : List Token) (errors : List (SyntaxError × Nat)) : List (SyntaxError × Token) :=
  errors.map fun one => (one.1, tokenAt tokens one.2)

/-- The errors that stopped a declaration, out of those that were told of. -/
def stopping (told : List (SyntaxError × Token)) : List (SyntaxError × Token) :=
  told.filter (·.1.stops)

/-- **A course with its journal.**  The errors in the journal are those that were told of and stopped a
declaration, and `goal` holds of the value and the journal, or `fails` if an error ended the course. -/
inductive Accounted {entry α : Type} (tokens : List Token)
    (errors : List entry → List (SyntaxError × Nat)) (goal : α → List entry → Nat → Prop)
    (fails : List entry → Nat → Prop) : Course α × List entry → Prop
  | value {stop : Nat} {looks : List Look} {told : List (SyntaxError × Token)} {value : α}
      {journal : List entry} (same : stopping told = named tokens (errors journal))
      (reached : goal value journal stop) :
      Accounted tokens errors goal fails (⟨stop, looks, told, .value value⟩, journal)
  | raised {stop : Nat} {looks : List Look} {told : List (SyntaxError × Token)} {error : SyntaxError}
      {journal : List entry} (same : stopping told = named tokens (errors journal))
      (hard : error.stops = true) (failed : fails journal stop) :
      Accounted tokens errors goal fails
        (⟨stop, looks, told, .raised error (tokenAt tokens stop)⟩, journal)
  | exhausted {course : Course α} {journal : List entry} (spent : course.ending = .exhausted) :
      Accounted tokens errors goal fails (course, journal)

namespace Accounted

open Journaled (silent enclosed attempting)

variable {entry α β : Type} {tokens : List Token} {errors : List entry → List (SyntaxError × Nat)}
variable {goal : α → List entry → Nat → Prop} {result : β → List entry → Nat → Prop}
variable {fails : List entry → Nat → Prop} {start middle : Nat}

lemma imp {other : α → List entry → Nat → Prop} {run : Course α × List entry}
    (whole : Accounted tokens errors goal fails run)
    (follows : ∀ value journal stop, goal value journal stop → other value journal stop) :
    Accounted tokens errors other fails run := by
  cases whole with
  | value same reached => exact .value same (follows _ _ _ reached)
  | raised same hard failed => exact .raised same hard failed
  | exhausted spent => exact .exhausted spent

lemma bind {first : Journaled entry α} {second : α → Journaled entry β}
    (joins : ∀ journal more, errors (journal ++ more) = errors journal ++ errors more)
    (before : Accounted tokens errors goal fails (first tokens start))
    (after : ∀ value journal middle, goal value journal middle →
      Accounted tokens errors (fun value more => result value (journal ++ more))
        (fun more => fails (journal ++ more)) (second value tokens middle)) :
    Accounted tokens errors result fails ((first >>= second) tokens start) := by
  show Accounted tokens errors result fails (Journaled.bind first second tokens start)
  unfold Journaled.bind Indexed.bind Journaled.course Journaled.behind
  generalize first tokens start = run at before ⊢
  cases before with
  | @value middle looks told value journal same reached =>
      have next := after value journal middle reached
      dsimp only
      generalize second value tokens middle = run at next ⊢
      have whole {more : List entry} {told' : List (SyntaxError × Token)}
          (same' : stopping told' = named tokens (errors more)) :
          stopping (told ++ told') = named tokens (errors (journal ++ more)) := by
        rw [stopping, List.filter_append, joins, named, List.map_append]
        exact congrArg₂ (· ++ ·) same same'
      cases next with
      | value same' reached' => exact .value (whole same') reached'
      | raised same' hard failed => exact .raised (whole same') hard failed
      | exhausted spent => exact .exhausted spent
  | raised same hard failed => exact .raised (by simpa using same) hard (by simpa using failed)
  | @exhausted course journal spent =>
      obtain ⟨middle, looks, told, ending⟩ := course
      cases spent
      exact .exhausted rfl

/-- What writes nothing and cannot fail, before a reading whose journal holds. -/
lemma behind {read : Indexed α} {second : α → Journaled entry β} {value : α}
    (passes : Indexed.Passes tokens start read value middle)
    (next : Accounted tokens errors result fails (second value tokens middle)) :
    Accounted tokens errors result fails ((silent read >>= second) tokens start) := by
  obtain ⟨looks, run, -⟩ := passes
  show Accounted tokens errors result fails (Journaled.bind (silent read) second tokens start)
  unfold Journaled.bind Indexed.bind Journaled.course Journaled.behind silent
  rw [run]
  dsimp only
  generalize second value tokens middle = run at next ⊢
  cases next with
  | value same reached => exact .value same reached
  | raised same hard failed => exact .raised same hard failed
  | exhausted spent => exact .exhausted spent

end Accounted

/-! ## The parts of one declaration -/

/-- From every index the journal of a reading holds, with `keeps` of the value and its blocks. -/
def Accounts {α : Type} (tokens : List Token) (keeps : α → List (List Attempt) → Prop)
    (read : Journaled (List Attempt) α) : Prop :=
  ∀ start ≤ endIndex tokens, Accounted tokens Attempt.raisedBodies
    (fun value lists stop => (Account.bodies lists).Holds tokens start stop ∧ keeps value lists)
    (fun lists stop => (Account.bodies lists).Holds tokens start stop) (read tokens start)

/-- The statements of all blocks are in a statement. -/
def EnclosesAll (stmt : Stmt) (lists : List (List Attempt)) : Prop :=
  ∀ list ∈ lists, stmt.Encloses (Attempt.statements list)

lemma EnclosesAll.imp {stmt outer : Stmt} {lists : List (List Attempt)} (all : EnclosesAll stmt lists)
    (around : ∀ {inner}, stmt.Encloses inner → outer.Encloses inner) : EnclosesAll outer lists :=
  fun list member => around (all list member)

namespace Accounts

open Journaled (silent)

variable {α β : Type} {tokens : List Token}
variable {keeps : α → List (List Attempt) → Prop} {result : β → List (List Attempt) → Prop}

lemma pure (value : α) (kept : keeps value []) : Accounts tokens keeps (Pure.pure value) :=
  fun _ within => .value rfl ⟨.plain le_rfl within, kept⟩

lemma exhausted : Accounts tokens keeps (silent Indexed.exhausted) := fun _ _ => .exhausted rfl

lemma bind {first : Journaled (List Attempt) α} {second : α → Journaled (List Attempt) β}
    (before : Accounts tokens keeps first)
    (after : ∀ value lists, keeps value lists →
      Accounts tokens (fun value more => result value (lists ++ more)) (second value)) :
    Accounts tokens result (first >>= second) := by
  intro start within
  refine (before start within).bind Attempt.raisedBodies_append fun value lists middle reached => ?_
  obtain ⟨holds, kept⟩ := reached
  have next := after value lists kept middle holds.ordered.within
  generalize second value tokens middle = run at next ⊢
  cases next with
  | value same reached => exact .value same ⟨holds.append reached.1, reached.2⟩
  | raised same hard failed => exact .raised same hard (holds.append failed)
  | exhausted spent => exact .exhausted spent

lemma of_steady {read : Indexed α} (steady : Indexed.Steady tokens read) :
    Accounts tokens (fun _ lists => lists = []) (silent read) := by
  intro start within
  have one := steady start within
  unfold silent
  generalize read tokens start = course at one ⊢
  have none_stopping {told : List (SyntaxError × Token)} (mild : ∀ one ∈ told, one.1.stops = false) :
      stopping told = [] :=
    List.filter_eq_nil_iff.mpr fun one told => by simp [mild one told]
  cases one with
  | value forward within mild => exact .value (none_stopping mild) ⟨.plain forward within, rfl⟩
  | raised forward within mild hard => exact .raised (none_stopping mild) hard (.plain forward within)
  | exhausted => exact .exhausted rfl

/-- What writes nothing, before a reading whose journal holds. -/
lemma behind {read : Indexed α} {second : α → Journaled (List Attempt) β}
    (steady : Indexed.Steady tokens read) (after : ∀ value, Accounts tokens result (second value)) :
    Accounts tokens result (silent read >>= second) :=
  (of_steady steady).bind fun value lists written => by
    subst written
    exact after value

/-- Both cases of what may be there. -/
lemma branch {read : Indexed (Option α)} {second : Option α → Journaled (List Attempt) β}
    (steady : Indexed.Steady tokens read) (absent : Accounts tokens result (second none))
    (present : ∀ value, Accounts tokens result (second (some value))) :
    Accounts tokens result (silent read >>= second) :=
  behind steady fun found => by
    cases found with
    | none => exact absent
    | some value => exact present value

/-- A part of a statement with no blocks in it. -/
lemma plain {read : Indexed Stmt} (steady : Indexed.Steady tokens read) :
    Accounts tokens EnclosesAll (silent read) := by
  intro start within
  refine (of_steady steady start within).imp fun stmt lists stop reached => ⟨reached.1, ?_⟩
  rw [reached.2]
  simp [EnclosesAll]

/-- A statement around another one. -/
lemma around {read : Journaled (List Attempt) Stmt} {outer : Stmt → Stmt}
    (inner : Accounts tokens EnclosesAll read)
    (encloses : ∀ {stmt body}, stmt.Encloses body → (outer stmt).Encloses body) :
    Accounts tokens EnclosesAll (read >>= fun stmt => Pure.pure (outer stmt)) :=
  inner.bind fun stmt lists all => pure _ (by simpa using all.imp encloses)

end Accounts

/-! ## The rules -/

namespace Journaled

open Indexed (Steady)

variable {tokens : List Token} {start : Nat}

/-- What the journal of one declaration says. -/
def Declares (tokens : List Token) (start : Nat) (first : Option Stmt) (attempts : List Attempt)
    (stop : Nat) : Prop :=
  ∃ one, attempts = [one] ∧ (Account.attempt one).Holds tokens start stop ∧ one.stmt? = first

/-- What the journal of a list of declarations says. -/
def Lists (tokens : List Token) (closing : Option Kind) (start : Nat) (stmts : List Stmt)
    (attempts : List Attempt) (stop : Nat) : Prop :=
  (Account.declarations closing attempts).Holds tokens start stop ∧
    Attempt.statements attempts = stmts

/-- With `m` steps, the journals of all rules hold. -/
structure Holding (tokens : List Token) (m : Nat) : Prop where
  declaration : ∀ start < endIndex tokens, Accounted tokens Attempt.raisedAll
    (Declares tokens start) (fun _ _ => False) (assembly.declaration m tokens start)
  statement : Accounts tokens EnclosesAll (assembly.statement m)
  block : Accounts tokens (fun body lists => lists.map Attempt.statements = [body]) (assembly.block m)
  declarations : ∀ closing, ∀ start ≤ endIndex tokens, Accounted tokens Attempt.raisedAll
    (Lists tokens closing start) (fun _ _ => False) (declarations m closing tokens start)

/-! ### One declaration -/

/-- A note of a declaration changes nothing but the looks. -/
lemma run_declaring {α : Type} (read : Indexed α) (ended : ∃ token ∈ tokens, token.isEnd)
    (within : start ≤ endIndex tokens) :
    ∃ looks, Indexed.declaring (Indexed.peek >>= fun _ => read) tokens start =
      ⟨(read tokens start).current, looks, (read tokens start).reports, (read tokens start).ending⟩ := by
  obtain ⟨seen, peek, -⟩ := Indexed.passes_peek ended within
  show ∃ looks, Indexed.declaring (Indexed.bind Indexed.peek fun _ => read) tokens start = _
  simp only [Indexed.declaring, Indexed.bind, peek, List.nil_append]
  generalize read tokens start = course
  obtain ⟨stop, looks, told, ending⟩ := course
  cases ending <;> exact ⟨_, rfl⟩

/-- The handler of an error tells of it and goes on where a statement may start. -/
lemma reaches_recover (ended : ∃ token ∈ tokens, token.isEnd) (m : Nat) (error : SyntaxError)
    {place : Nat} (inside : start < endIndex tokens) (within : place ≤ endIndex tokens) :
    (∃ after looks, Indexed.recover m error (tokenAt tokens place) tokens place =
        (⟨after, looks, [(error, tokenAt tokens place)], .value none⟩ : Course (Option Stmt)) ∧
      Resumes tokens place after) ∨
    (Indexed.recover m error (tokenAt tokens place) tokens place : Course (Option Stmt)).ending =
      .exhausted := by
  have unfolded : (Indexed.recover m error (tokenAt tokens place) : Indexed (Option Stmt)) =
      Indexed.bind (Indexed.report error (tokenAt tokens place)) fun _ =>
        Indexed.bind (Indexed.synchronize m) fun _ => Indexed.pure none := rfl
  rw [unfolded]
  simp only [Indexed.bind, Indexed.report]
  rcases Indexed.reaches_synchronize ended m (Nat.zero_lt_of_lt inside) within with
    ⟨after, ⟨looks, run, -⟩, resumes⟩ | spent
  · rw [run]
    exact .inl ⟨after, _, rfl, resumes⟩
  · generalize Indexed.synchronize m tokens place = course at spent
    obtain ⟨stop, looks, told, ending⟩ := course
    cases spent
    exact .inr rfl

/-- **A declaration is kept, or given up for the next place where a statement may start.** -/
theorem accounted_attempting (ended : ∃ token ∈ tokens, token.isEnd) (m : Nat)
    {read : Journaled (List Attempt) Stmt} (whole : Accounts tokens EnclosesAll read)
    (inside : start < endIndex tokens) :
    Accounted tokens Attempt.raisedAll (Declares tokens start) (fun _ _ => False)
      (attempting m read tokens start) := by
  have one := whole start inside.le
  obtain ⟨looks, noted⟩ := run_declaring (Indexed.recovering m read.course) ended inside.le
  have mapped : (some <$> read.course) tokens start =
      Indexed.bind read.course (fun value => Indexed.pure (some value)) tokens start := rfl
  unfold attempting
  rw [noted]
  unfold Indexed.recovering Indexed.catching
  rw [mapped, Indexed.bind, course]
  generalize read tokens start = run at one ⊢
  cases one with
  | value same reached =>
      simp only [Indexed.pure, List.append_nil]
      refine .value ?_ ⟨_, rfl, .kept reached.1 reached.2, rfl⟩
      simpa [attempt, Attempt.raisedAll, Attempt.raised] using same
  | @raised place looks told error lists same hard failed =>
      dsimp only
      rcases reaches_recover ended m error inside failed.ordered.within with
        ⟨after, looks', run, resumes⟩ | spent
      · rw [run]
        refine .value ?_ ⟨_, rfl, .dropped failed resumes, rfl⟩
        simp only [stopping, named] at same
        simp [attempt, Attempt.raisedAll, Attempt.raised, stopping, named, hard, same]
      · exact .exhausted spent
  | @exhausted course lists spent =>
      obtain ⟨stop, looks, told, ending⟩ := course
      cases spent
      exact .exhausted rfl

/-! ### The rules -/

lemma enclosesAll_of_body {stmt : Stmt} {body : List Stmt} {lists : List (List Attempt)}
    (one : lists.map Attempt.statements = [body]) (encloses : stmt.Encloses body) :
    EnclosesAll stmt lists := by
  intro list member
  have same : Attempt.statements list ∈ [body] := one ▸ List.mem_map_of_mem member
  rwa [List.mem_singleton.mp same]

/-- Between braces, a list of declarations is a block. -/
lemma accounts_enclosed {read : Journaled Attempt (List Stmt)}
    (whole : ∀ start ≤ endIndex tokens, Accounted tokens Attempt.raisedAll
      (Lists tokens (some .rightBrace) start) (fun _ _ => False) (read tokens start)) :
    Accounts tokens (fun body lists => lists.map Attempt.statements = [body]) (enclosed read) := by
  intro start within
  have one := whole start within
  unfold enclosed
  generalize read tokens start = run at one ⊢
  cases one with
  | value same reached =>
      have holds := reached.1
      refine .value ?_ ⟨.body le_rfl holds (.plain le_rfl holds.ordered.within), ?_⟩
      · simpa [Attempt.raisedBodies] using same
      · exact congrArg (fun body => [body]) reached.2
  | raised same hard failed => exact failed.elim
  | exhausted spent => exact .exhausted spent

namespace Holding

lemma zero : Holding tokens 0 :=
  ⟨fun _ _ => .exhausted rfl, .exhausted, .exhausted, fun _ _ _ => .exhausted rfl⟩

variable {m : Nat} (ih : Holding tokens m) (ended : ∃ token ∈ tokens, token.isEnd)

include ih ended

lemma declaration_succ (inside : start < endIndex tokens) :
    Accounted tokens Attempt.raisedAll (Declares tokens start) (fun _ _ => False)
      (assembly.declaration (m + 1) tokens start) := by
  refine accounted_attempting ended m (.branch (.accept ended _) ?_ fun _ => ?_) inside
  · exact .branch (.accept ended _) ih.statement fun _ => .plain (.variableDeclaration ended m _)
  · refine .behind (.signature ended m) ?_
    rintro ⟨name, names⟩
    refine ih.block.bind fun body lists one => .pure _ ?_
    rw [List.append_nil]
    exact enclosesAll_of_body one (.function name names body)

lemma statement_succ : Accounts tokens EnclosesAll (assembly.statement (m + 1)) := by
  refine .behind (.opening ended) fun opening => ?_
  cases opening with
  | none => exact .plain (.valueStatement ended m _ _)
  | some opening =>
      cases opening with
      | forLoop =>
          refine .behind (.forClauses ended m) ?_
          rintro ⟨initializer, condition, increment⟩
          exact ih.statement.around fun inner => inner.forLoop initializer condition increment
      | branch =>
          refine .behind (.condition ended m _ _) fun condition => ?_
          refine ih.statement.bind fun consequent lists all => .branch (.accept ended _) ?_ fun _ => ?_
          · refine .pure _ ?_
            rw [List.append_nil]
            exact all.imp .consequent
          · refine ih.statement.bind fun alternative more others => .pure _ ?_
            rw [List.append_nil]
            exact List.forall_mem_append.mpr ⟨all.imp .consequent, others.imp .alternative⟩
      | loop =>
          exact .behind (.condition ended m _ _) fun condition => ih.statement.around .loop
      | return_ keyword => exact .plain (.returnStatement ended m _)
      | print => exact .plain (.valueStatement ended m _ _)
      | block =>
          refine ih.block.bind fun body lists one => .pure _ ?_
          rw [List.append_nil]
          exact enclosesAll_of_body one (.block body)

lemma block_succ : Accounts tokens (fun body lists => lists.map Attempt.statements = [body])
    (assembly.block (m + 1)) := by
  refine (accounts_enclosed (ih.declarations _)).bind fun body lists one => ?_
  exact .behind (.expect ended _ _) fun _ => .pure _ (by simpa using one)

lemma declarations_succ (closing : Option Kind) (within : start ≤ endIndex tokens) :
    Accounted tokens Attempt.raisedAll (Lists tokens closing start) (fun _ _ => False)
      (assembly.declarations (m + 1) closing tokens start) := by
  have atClose (close : AtClose tokens closing start) :
      Accounted tokens Attempt.raisedAll (Lists tokens closing start) (fun _ _ => False)
        ((pure [] : Journaled Attempt (List Stmt)) tokens start) :=
    .value rfl ⟨.stopped within close, rfl⟩
  rcases Nat.lt_or_eq_of_le within with inside | rfl
  · refine .behind (Indexed.passes_stops ended inside closing) ?_
    by_cases close : closing = some (tokenAt tokens start).kind
    · rw [decide_eq_true close]
      exact atClose (.inr close)
    rw [decide_eq_false close]
    have continues : ¬ AtClose tokens closing start := not_or.mpr ⟨inside.ne, close⟩
    refine (ih.declaration start inside).bind Attempt.raisedAll_append fun first attempts middle => ?_
    rintro ⟨one, rfl, holds, given⟩
    refine (ih.declarations closing middle holds.ordered.within).bind Attempt.raisedAll_append
      fun others more stop reached => ?_
    obtain ⟨rest, left⟩ := reached
    refine .value rfl ?_
    rw [List.append_nil, List.singleton_append]
    exact ⟨.next continues holds rest, by rw [Attempt.statements_cons, given, left]⟩
  · refine .behind (Indexed.passes_stops_end ended closing) ?_
    exact atClose (.inl rfl)

end Holding

/-- **The journals of all rules hold.** -/
theorem holding (ended : ∃ token ∈ tokens, token.isEnd) (m : Nat) : Holding tokens m := by
  induction m with
  | zero => exact .zero
  | succ m ih =>
      exact ⟨fun _ => ih.declaration_succ ended, ih.statement_succ ended, ih.block_succ ended,
        fun closing _ => ih.declarations_succ ended closing⟩

/-! ## Whole programs -/

/-- The journal of a program, for a number of steps. -/
def ofProgram (m : Nat) (tokens : List Token) : List Attempt := (declarations m none tokens 0).2

/-- **An error costs one declaration.**  Beside the parser by index, for every large number of steps, there
is a journal with the statements that are left and the errors that were raised, each at the index that
the parser had reached.  It holds: a declaration that an error is raised in is given up with what is in
it, the list around it keeps the statements before it and goes on at the least boundary behind the error.
So errors are raised one behind the other, and no two at one token but the end mark. -/
theorem recovery_contained {m : Nat} (ended : ∃ token ∈ tokens, token.isEnd)
    (steps : Parser.allowance (beforeEnd tokens) ≤ m) :
    (declarations m none).course = Indexed.parse m ∧
      Attempt.statements (ofProgram m tokens) = (Program.parse tokens).tree ∧
      named tokens (Attempt.raisedAll (ofProgram m tokens)) =
        stopping ((Program.parse tokens).reports.map (located tokens)) ∧
      (Account.declarations none (ofProgram m tokens)).Holds tokens 0 (endIndex tokens) ∧
      (Attempt.raisedAll (ofProgram m tokens)).Pairwise fun one other =>
        one.2 ≤ other.2 ∧ (one.2 = other.2 → one.2 = endIndex tokens) := by
  have same : (declarations m none).course = Indexed.parse m := (courses m).declarations none
  have reads := Indexed.reads_program ended steps
  have whole := (holding ended m).declarations none 0 (Nat.zero_le _)
  rw [← same] at reads
  unfold course at reads
  unfold ofProgram
  generalize declarations m none tokens 0 = run at reads whole ⊢
  have ending := reads.ending
  cases whole with
  | value told reached =>
      obtain ⟨holds, left⟩ := reached
      cases holds.close with
      | inl atEnd =>
          subst atEnd
          refine ⟨same, left.trans (Ending.value.inj ending), ?_, holds, holds.ordered.sorted⟩
          rw [← reads.reports]
          exact told.symm
      | inr closed => cases closed
  | raised told hard failed => exact failed.elim
  | exhausted spent =>
      rw [spent] at ending
      cases ending

/-- A block with an error in it, behind which its closing brace is skipped. -/
def cascade : List Token :=
  [⟨.leftBrace, "\x7b", none, 1⟩, ⟨.rightParen, ")", none, 1⟩, ⟨.rightBrace, "\x7d", none, 1⟩,
    ⟨.keyword .return_, "return", none, 2⟩, ⟨.semicolon, ";", none, 2⟩, .endMark 2]

/-- The statement behind the skipped brace is read into the block, which is given up at the end mark. -/
theorem recovery_contained_cascade :
    (∃ token ∈ cascade, token.isEnd) ∧ Parser.allowance (beforeEnd cascade) ≤ 96 ∧
      Attempt.statements (ofProgram 96 cascade) = (Program.parse cascade).tree ∧
      (Account.declarations none (ofProgram 96 cascade)).Holds cascade 0 5 ∧
      (Program.parse cascade).tree.length = 0 ∧
      (Attempt.raisedAll (ofProgram 96 cascade)).map (·.2) = [1, 5] := by
  have ended : ∃ token ∈ cascade, token.isEnd := ⟨.endMark 2, by decide, rfl⟩
  have steps : Parser.allowance (beforeEnd cascade) ≤ 96 := by decide
  obtain ⟨-, left, -, holds, -⟩ := recovery_contained ended steps
  exact ⟨ended, steps, left, holds, by decide, by decide⟩

end Journaled

end LoxLang
