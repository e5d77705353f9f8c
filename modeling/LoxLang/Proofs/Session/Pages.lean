import Mathlib
import LoxLang.Proofs.Grammar.Numbered
import LoxLang.Proofs.Session.Confined
import LoxLang.Proofs.Session.Refusal

/-!
# Depths are private to an occurrence and final

A session whose parser numbers every node from one counter, and which enters the hops of all its programs
in one table under these numbers.  Numbers can be taken between two steps as well, for trees that the
session never sees.  No two occurrences of all its trees share a number, so what the table tells for an
occurrence is what the walk over its own tree found, from then on and for good.

* `Page` — what one step leaves in the ledger; `Ledger.turn`, `Ledger.turns` — the steps of a session.
* `Page.Pass` — the walk over one tree; `Page.Spares`, `Page.Recalls` — two trees of one session.
* `Ledger.Chronicle` — what holds of all pages; `Ledger.Chronicle.cons` — of one page more.
* **`Ledger.depths_final`** — what was recorded for an occurrence stays, in functions as well.
-/

namespace LoxLang

/-! ## Numbered trees of source texts -/

namespace Counted

/-- The numbered statements of a source text, and the counter behind them. -/
def read (next : Nat) (source : String) : List Stmt × Nat :=
  let parsed := parse next (Scan.tokens (Scan.items source))
  (parsed.1.tree, parsed.2)

/-- The numbered expression of a source text, and the counter behind it. -/
def readExpression (next : Nat) (source : String) : Option Expr × Nat :=
  let parsed := parseExpression next (Scan.tokens (Scan.items source))
  (parsed.1.tree, parsed.2)

lemma read_numbers (next : Nat) (source : String) :
    Stmt.revisedAll .unnumbered (read next source).1 = (Program.read source).1 ∧
      Numbers next (read next source).2 (Stmt.occurrencesAll (read next source).1) := by
  obtain ⟨unnumbered, -, numbers⟩ := parse_numbers next (Scan.tokens (Scan.items source))
  simp only [read, Program.read, Program.told]
  exact ⟨unnumbered, numbers⟩

lemma readExpression_numbers (next : Nat) (source : String) :
    (readExpression next source).1.map (Expr.revised .unnumbered) =
        (Program.readExpression source).1 ∧
      Numbers next (readExpression next source).2
        (Expr.occurrences? (readExpression next source).1) := by
  obtain ⟨unnumbered, -, numbers⟩ := parseExpression_numbers next (Scan.tokens (Scan.items source))
  simp only [readExpression, Program.readExpression, Program.told]
  exact ⟨unnumbered, numbers⟩

end Counted

/-! ## Pages -/

/-- What one step of a session leaves in its ledger. -/
structure Page where
  /-- The occurrences in the tree that was read. -/
  occurrences : List Occurrence
  /-- What the walk over the tree found, if there was one. -/
  findings : List Finding
  before : Table
  after : Ledger

namespace Page

/-- **One walk**: what it finds is entered, at most once for an occurrence of its own tree, and the table
tells it then.  For an occurrence that no walk came to, it tells nothing. -/
structure Pass (page : Page) : Prop where
  entered : page.after.table = page.before.enterAll page.findings
  once : (page.findings.map Finding.number).Nodup
  own : page.findings.map Finding.number ⊆ page.occurrences.map Occurrence.hops
  told : page.after.table.revision.Tells page.findings
  silent : ∀ occurrence ∈ page.occurrences, occurrence.hops ∉ page.findings.map Finding.number →
    page.after.table.read occurrence.hops = none

/-- The walk over one tree changes nothing that is told for the occurrences of another one. -/
def Spares (page other : Page) : Prop :=
  ∀ occurrence ∈ other.occurrences,
    page.after.table.read occurrence.hops = page.before.read occurrence.hops

/-- A later table tells for the occurrences of a tree what the table told after their own walk. -/
def Recalls (later page : Page) : Prop :=
  ∀ occurrence ∈ page.occurrences,
    later.after.table.read occurrence.hops = page.after.table.read occurrence.hops

end Page

namespace Ledger

/-- What the walk over a program finds; there is none over a program that could not be read. -/
def walked (source : String) (numbered : List Stmt) : List Finding :=
  if (Program.read source).2 = [] then Stmt.findingsAll [] numbered else []

/-- The answer to a request and the page that it leaves, where `skipped` numbers were taken before. -/
def turn (skipped allowance : Nat) (ledger : Ledger) : Request → Option (Answer × Page)
  | .run source =>
    let numbered := Counted.read (ledger.next + skipped) source
    (ledger.run allowance source numbered.1 numbered.2).map fun told =>
      let answered := answered (told.1, none) told.2
      (answered.1, ⟨Stmt.occurrencesAll numbered.1, walked source numbered.1, ledger.table, answered.2⟩)
  | .evaluate source =>
    let numbered := Counted.readExpression (ledger.next + skipped) source
    (ledger.evaluate allowance source numbered.1 numbered.2).map fun told =>
      let answered := answered (Answer.ofResult told.1) told.2
      (answered.1, ⟨Expr.occurrences? numbered.1, [], ledger.table, answered.2⟩)

/-- The answers to requests and the pages that they leave. -/
def turns (ledger : Ledger) : List (Nat × Nat × Request) → Option (List Answer × List Page × Ledger)
  | [] => some ([], [], ledger)
  | (skipped, allowance, request) :: others =>
    (ledger.turn skipped allowance request).bind fun first =>
      (first.2.after.turns others).map fun rest => (first.1 :: rest.1, first.2 :: rest.2.1, rest.2.2)

variable {ledger after last : Ledger} {skipped allowance next : Nat} {request : Request}
  {answer : Answer} {page : Page} {source : String}

/-! ## One page -/

/-- A program that could be read enters what the walk over it finds. -/
lemma run_table {numbered : List Stmt} {status : Status}
    (ran : ledger.run allowance source numbered next = some (status, after)) :
    after.next = next ∧ after.table = ledger.table.enterAll (walked source numbered) := by
  rw [walked]
  simp only [run] at ran
  split_ifs at ran with problems mistakes
  · cases ran
    rw [if_neg problems]
    exact ⟨rfl, rfl⟩
  · cases ran
    rw [if_pos (not_not.mp problems)]
    exact ⟨rfl, rfl⟩
  · rw [if_pos (not_not.mp problems)]
    obtain ⟨-, _, _, _, -, rfl⟩ := of_behindRun ran
    exact ⟨rfl, rfl⟩

/-- An expression enters nothing. -/
lemma evaluate_table {numbered : Option Expr} {result : Except Status Value}
    (ran : ledger.evaluate allowance source numbered next = some (result, after)) :
    after.next = next ∧ after.table = ledger.table := by
  simp only [evaluate] at ran
  split at ran
  · obtain ⟨-, _, _, rfl, -⟩ := of_behindValue ran
    exact ⟨rfl, rfl⟩
  · cases ran
    exact ⟨rfl, rfl⟩

/-- A page that was written behind a ledger. -/
structure Writes (ledger : Ledger) (page : Page) : Prop where
  before : page.before = ledger.table
  numbers : Numbers ledger.next page.after.next page.occurrences
  entered : page.after.table = page.before.enterAll page.findings
  met : page.findings = [] ∨
    page.findings.map Finding.number = page.occurrences.map Occurrence.hops

/-- Diagnostics that are drained leave no mark. -/
lemma Writes.answered {occurrences : List Occurrence} {findings : List Finding}
    (writes : ledger.Writes ⟨occurrences, findings, ledger.table, after⟩)
    (result : Status × Option Value) :
    ledger.Writes ⟨occurrences, findings, ledger.table, (Ledger.answered result after).2⟩ :=
  ⟨rfl, writes.numbers, writes.entered, writes.met⟩

lemma Confined.answered {numbers : List (Option Nat)} (confined : after.Confined numbers)
    (result : Status × Option Value) : (Ledger.answered result after).2.Confined numbers :=
  ⟨confined.kept, confined.free⟩

section

variable {known : List (Option Nat)} (sound : ledger.Sound) (confined : ledger.Confined known)

include sound confined

lemma run_writes {numbered : List Stmt} {status : Status}
    (numbers : Numbers ledger.next next (Stmt.occurrencesAll numbered))
    (ran : ledger.run allowance source numbered next = some (status, after)) :
    ledger.Writes ⟨Stmt.occurrencesAll numbered, walked source numbered, ledger.table, after⟩ ∧
      after.Confined (known ++ (Stmt.occurrencesAll numbered).map Occurrence.hops) := by
  obtain ⟨counted, entered⟩ := run_table ran
  refine ⟨⟨rfl, counted ▸ numbers, entered, ?_⟩, confined.run sound numbers ran⟩
  simp only [walked]
  split
  · exact .inr (Stmt.numbers_findingsAll _ _)
  · exact .inl rfl

lemma evaluate_writes {numbered : Option Expr} {result : Except Status Value}
    (numbers : Numbers ledger.next next (Expr.occurrences? numbered))
    (ran : ledger.evaluate allowance source numbered next = some (result, after)) :
    ledger.Writes ⟨Expr.occurrences? numbered, [], ledger.table, after⟩ ∧
      after.Confined (known ++ (Expr.occurrences? numbered).map Occurrence.hops) := by
  obtain ⟨counted, entered⟩ := evaluate_table ran
  exact ⟨⟨rfl, counted ▸ numbers, entered, .inl rfl⟩, confined.evaluate sound numbers ran⟩

/-- **A step with the parser that numbers is a step of a session with a ledger**, and writes a page. -/
theorem turn_writes (turned : ledger.turn skipped allowance request = some (answer, page)) :
    ledger.Responds allowance request answer page.after ∧ ledger.Writes page ∧
      page.after.Confined (known ++ page.occurrences.map Occurrence.hops) := by
  have later : ledger.next ≤ ledger.next + skipped := Nat.le_add_right _ _
  cases request with
  | run source =>
      obtain ⟨unnumbered, numbers⟩ := Counted.read_numbers (ledger.next + skipped) source
      simp only [turn] at turned
      generalize Counted.read (ledger.next + skipped) source = numbered at turned unnumbered numbers
      have numbers := numbers.mono later le_rfl
      obtain ⟨⟨status, after⟩, ran, same⟩ := Option.map_eq_some_iff.mp turned
      obtain ⟨writes, kept⟩ := run_writes sound confined numbers ran
      have responds := Responds.run numbers unnumbered ran
      obtain ⟨rfl, rfl⟩ := Prod.mk.inj same
      exact ⟨responds, writes.answered (status, none), kept.answered (status, none)⟩
  | evaluate source =>
      obtain ⟨unnumbered, numbers⟩ := Counted.readExpression_numbers (ledger.next + skipped) source
      simp only [turn] at turned
      generalize Counted.readExpression (ledger.next + skipped) source = numbered
        at turned unnumbered numbers
      have numbers := numbers.mono later le_rfl
      obtain ⟨⟨result, after⟩, ran, same⟩ := Option.map_eq_some_iff.mp turned
      obtain ⟨writes, kept⟩ := evaluate_writes sound confined numbers ran
      have responds := Responds.evaluate numbers unnumbered ran
      obtain ⟨rfl, rfl⟩ := Prod.mk.inj same
      exact ⟨responds, writes.answered (Answer.ofResult result), kept.answered (Answer.ofResult result)⟩

end

namespace Writes

variable (writes : ledger.Writes page)

include writes

lemma own : page.findings.map Finding.number ⊆ page.occurrences.map Occurrence.hops := by
  rcases writes.met with none | same
  · simp [none]
  · rw [same]
    exact List.Subset.refl _

/-- What is entered is not in the table yet. -/
lemma new {finding : Finding} (mem : finding ∈ page.findings) :
    ∃ number, finding.number = some number ∧ ledger.next ≤ number := by
  obtain ⟨occurrence, here, same⟩ := List.mem_map.mp (writes.own (List.mem_map_of_mem mem))
  obtain ⟨number, carried, above, -⟩ := writes.numbers.within occurrence here
  exact ⟨number, by rw [← same, carried], above⟩

/-- What was in the table before stays there. -/
lemma old {number : Nat} (known : number < ledger.next) :
    page.after.table number = ledger.table number := by
  rw [writes.entered, writes.before]
  refine Table.enterAll_of_not_mem _ _ fun met => ?_
  obtain ⟨finding, mem, same⟩ := List.mem_map.mp met
  obtain ⟨other, carried, above⟩ := writes.new mem
  rw [carried, Option.some.injEq] at same
  omega

lemma pass (sound : ledger.Sound) : page.Pass := by
  have once : (page.findings.map Finding.number).Nodup := by
    rcases writes.met with none | same
    · simp [none]
    · rw [same]
      exact writes.numbers.distinct
  refine ⟨writes.entered, once, writes.own, ?_, fun occurrence mem unmet => ?_⟩
  · rw [writes.entered, writes.before]
    refine Table.enterAll_found _ _ once fun finding mem => ?_
    obtain ⟨number, carried, above⟩ := writes.new mem
    exact ⟨number, carried, sound.free number above⟩
  · obtain ⟨number, carried, above, -⟩ := writes.numbers.within occurrence mem
    rw [carried] at unmet ⊢
    show page.after.table number = none
    rw [writes.entered, writes.before, Table.enterAll_of_not_mem _ _ unmet]
    exact sound.free number above

end Writes

/-! ## All pages -/

/-- What holds of the pages between two ledgers. -/
structure Chronicle (ledger : Ledger) (pages : List Page) (last : Ledger) : Prop where
  numbers : Numbers ledger.next last.next (pages.flatMap Page.occurrences)
  passes : ∀ page ∈ pages, page.Pass
  old : ∀ page ∈ pages, ∀ number < ledger.next,
    page.before number = ledger.table number ∧ page.after.table number = ledger.table number
  apart : pages.Pairwise fun page later => page.Spares later ∧ later.Spares page ∧ later.Recalls page

/-- **One page more**: its numbers are new to the table, and behind it they are old. -/
theorem Chronicle.cons {pages : List Page} (sound : ledger.Sound) (settled : page.after.Sound)
    (writes : ledger.Writes page) (rest : page.after.Chronicle pages last) :
    ledger.Chronicle (page :: pages) last where
  numbers := by
    rw [List.flatMap_cons]
    exact writes.numbers.append rest.numbers
  passes := List.forall_mem_cons.mpr ⟨writes.pass sound, rest.passes⟩
  old := by
    refine List.forall_mem_cons.mpr ⟨fun number known => ?_, fun later mem number known => ?_⟩
    · exact ⟨by rw [writes.before], writes.old known⟩
    · obtain ⟨before, after⟩ := rest.old later mem number (known.trans_le writes.numbers.le)
      exact ⟨before.trans (writes.old known), after.trans (writes.old known)⟩
  apart := by
    refine List.pairwise_cons.mpr ⟨fun later mem => ⟨?_, ?_, ?_⟩, rest.apart⟩
    · intro occurrence here
      have listed : occurrence ∈ pages.flatMap Page.occurrences := List.mem_flatMap.mpr ⟨later, mem, here⟩
      obtain ⟨number, carried, above, -⟩ := rest.numbers.within occurrence listed
      have free := sound.free number (writes.numbers.le.trans above)
      rw [carried, writes.before]
      exact (settled.free number above).trans free.symm
    · intro occurrence here
      obtain ⟨number, carried, -, below⟩ := writes.numbers.within occurrence here
      obtain ⟨before, after⟩ := rest.old later mem number below
      rw [carried]
      exact after.trans before.symm
    · intro occurrence here
      obtain ⟨number, carried, -, below⟩ := writes.numbers.within occurrence here
      rw [carried]
      exact (rest.old later mem number below).2

/-- A session with the parser that numbers is one with a ledger, and its pages are a chronicle. -/
lemma turns_chronicle : ∀ (requests : List (Nat × Nat × Request)) {ledger last : Ledger}
    {answers : List Answer} {pages : List Page} {numbers : List (Option Nat)}, ledger.Sound →
    ledger.Confined numbers → ledger.turns requests = some (answers, pages, last) →
    ledger.Chronicle pages last ∧
      ∀ front page behind, pages = front ++ page :: behind → page.after.Confined
        (numbers ++ ((front ++ [page]).flatMap Page.occurrences).map Occurrence.hops)
  | [], ledger, _, _, _, _, sound, confined, turned => by
      cases turned
      exact ⟨⟨.nil _, by simp, by simp, .nil⟩, by simp⟩
  | (skipped, allowance, request) :: others, ledger, last, _, _, numbers, sound, confined, turned => by
      obtain ⟨⟨answer, page⟩, first, rest⟩ := Option.bind_eq_some_iff.mp turned
      obtain ⟨⟨answers, pages, end_⟩, followed, same⟩ := Option.map_eq_some_iff.mp rest
      cases same
      obtain ⟨responds, writes, kept⟩ := turn_writes sound confined first
      have settled := (responds_plain sound responds).2
      obtain ⟨chronicle, functions⟩ := turns_chronicle others settled kept followed
      refine ⟨.cons sound settled writes chronicle, fun front other behind same => ?_⟩
      cases front with
      | nil =>
          cases same
          simpa using kept
      | cons early front =>
          cases same
          simpa using functions front other behind rfl

/-! ## From the session to its pages -/

/-- Where there is an answer without the ledger, there is one with the parser that numbers. -/
lemma exists_turn (sound : ledger.Sound) {session : Session}
    (asked : ledger.plain.respond allowance request = some (answer, session)) (skipped : Nat) :
    ∃ other page, ledger.turn skipped allowance request = some (other, page) := by
  have later : ledger.next ≤ ledger.next + skipped := Nat.le_add_right _ _
  cases request with
  | run source =>
      obtain ⟨unnumbered, numbers⟩ := Counted.read_numbers (ledger.next + skipped) source
      obtain ⟨told, ran, -⟩ := Option.map_eq_some_iff.mp asked
      rw [(run_plain sound (numbers.mono later le_rfl) unnumbered allowance).1] at ran
      obtain ⟨told, ran, -⟩ := Option.map_eq_some_iff.mp ran
      exact ⟨_, _, Option.map_eq_some_iff.mpr ⟨told, ran, rfl⟩⟩
  | evaluate source =>
      obtain ⟨unnumbered, numbers⟩ := Counted.readExpression_numbers (ledger.next + skipped) source
      obtain ⟨told, ran, -⟩ := Option.map_eq_some_iff.mp asked
      rw [(evaluate_plain sound (numbers.mono later le_rfl) unnumbered allowance).1] at ran
      obtain ⟨told, ran, -⟩ := Option.map_eq_some_iff.mp ran
      exact ⟨_, _, Option.map_eq_some_iff.mpr ⟨told, ran, rfl⟩⟩

/-- **Every session has its pages**, whatever numbers are taken between its steps. -/
theorem exists_turns : ∀ (requests : List (Nat × Nat × Request)) {ledger : Ledger}
    {answers : List Answer} {session : Session} {numbers : List (Option Nat)}, ledger.Sound →
    ledger.Confined numbers →
    ledger.plain.respondAll (requests.map Prod.snd) = some (answers, session) →
    ∃ pages last, ledger.turns requests = some (answers, pages, last) ∧ last.plain = session
  | [], ledger, _, _, _, _, _, responded => by
      cases responded
      exact ⟨[], ledger, rfl, rfl⟩
  | (skipped, allowance, request) :: others, ledger, _, _, _, sound, confined, responded => by
      obtain ⟨⟨answer, after⟩, asked, rest⟩ := Option.bind_eq_some_iff.mp responded
      obtain ⟨⟨more, last⟩, followed, same⟩ := Option.map_eq_some_iff.mp rest
      cases same
      obtain ⟨other, page, turned⟩ := exists_turn sound asked skipped
      obtain ⟨responds, -, kept⟩ := turn_writes sound confined turned
      obtain ⟨plain, settled⟩ := responds_plain sound responds
      rw [asked] at plain
      cases plain
      obtain ⟨pages, last, behind, rfl⟩ := exists_turns others settled kept followed
      refine ⟨page :: pages, last, ?_, rfl⟩
      rw [turns, turned, Option.bind_some, behind]
      rfl

/-- **Depths are private to an occurrence and final.**  Every session, with any numbers taken between its
steps, has pages for its steps.  All occurrences in the trees of all pages carry different numbers, also
where the counter starts over at some size, as long as it has not.  A walk over a tree enters what it
finds, at most once for an occurrence, and spares the occurrences of every other tree.  Every later table
tells for an occurrence what the table told behind its own walk, and if that was nothing, it is global
for good.  The functions that are kept behind a step have the occurrences of trees that were read up to then,
so they find what was recorded for these, whenever they are called. -/
theorem depths_final (sink : Sink) (clock : Nat → Float) {requests : List (Nat × Nat × Request)}
    {answers : List Answer} {session : Session}
    (responded : (Session.start sink clock).respondAll (requests.map Prod.snd) =
      some (answers, session)) :
    ∃ pages last, (start sink clock).turns requests = some (answers, pages, last) ∧
      last.plain = session ∧
      ((pages.flatMap Page.occurrences).map Occurrence.hops).Nodup ∧
      (∀ size, last.next ≤ size → ((pages.flatMap Page.occurrences).map fun occurrence =>
        occurrence.hops.map (· % size)).Nodup) ∧
      (∀ page ∈ pages, page.Pass) ∧
      (pages.Pairwise fun page later =>
        page.Spares later ∧ later.Spares page ∧ later.Recalls page) ∧
      ∀ front page behind, pages = front ++ page :: behind →
        ∀ {scope event : Nat} {name : String} {closure : Closure},
          page.after.machine.store.local? scope name = some (.function event closure) →
          ∀ occurrence ∈ Stmt.occurrencesAll closure.body, ∃ origin ∈ front ++ [page],
            occurrence.hops ∈ origin.occurrences.map Occurrence.hops ∧
            ∀ later ∈ page :: behind,
              later.after.table.read occurrence.hops = origin.after.table.read occurrence.hops := by
  have sound := sound_start sink clock
  have confined := Confined.start sink clock
  rw [← plain_start] at responded
  obtain ⟨pages, last, turned, plain⟩ := exists_turns requests sound confined responded
  obtain ⟨chronicle, functions⟩ := turns_chronicle requests sound confined turned
  refine ⟨pages, last, turned, plain, chronicle.numbers.distinct, fun size room =>
    chronicle.numbers.distinct_mod room, chronicle.passes, chronicle.apart, ?_⟩
  intro front page behind same scope event name closure held occurrence mem
  have known := (functions front page behind same).function held mem
  rw [List.nil_append] at known
  obtain ⟨there, listed, carried⟩ := List.mem_map.mp known
  obtain ⟨origin, before, here⟩ := List.mem_flatMap.mp listed
  refine ⟨origin, before, carried ▸ List.mem_map_of_mem here, fun later follows => ?_⟩
  rw [← carried]
  have apart := chronicle.apart
  rw [same, List.pairwise_append, List.pairwise_cons] at apart
  obtain ⟨-, ⟨behindPage, -⟩, behindFront⟩ := apart
  rcases List.mem_append.mp before with early | last
  · exact (behindFront origin early later follows).2.2 there here
  · obtain rfl := List.mem_singleton.mp last
    rcases List.mem_cons.mp follows with rfl | late
    · rfl
    · exact (behindPage later late).2.2 there here

/-- A function that is kept, a program that is refused, and a call of the function. -/
def remembered : List (Nat × Nat × Request) :=
  [(0, 60, .run ("fun outer() \x7b var a; fun inner() \x7b return a; \x7d return inner; \x7d " ++
      "var g = outer();")),
    (5, 40, .run "\x7b var b = b; \x7d"), (2, 40, .evaluate "g()")]

/-- The depths in the function are there when it is called, and so is that of the refused program. -/
theorem depths_final_remembered :
    ∃ answers session pages last,
      (Session.start (.direct .empty) fun _ => 0).respondAll (remembered.map Prod.snd) =
        some (answers, session) ∧
      (start (.direct .empty) fun _ => 0).turns remembered = some (answers, pages, last) ∧
      ((pages.flatMap Page.occurrences).map Occurrence.hops).Nodup ∧
      (pages.Pairwise fun page later =>
        page.Spares later ∧ later.Spares page ∧ later.Recalls page) ∧
      answers.map Answer.status = [.completed, .compileError, .completed] ∧
      pages.map (fun page => page.occurrences.map fun occurrence =>
        last.table.read occurrence.hops) = [[some 1, some 0, none], [some 0], [none]] := by
  have some_ : ((Session.start (.direct .empty) fun _ => 0).respondAll
      (remembered.map Prod.snd)).isSome = true := by
    decide +kernel
  have depths : ((start (.direct .empty) fun _ => 0).turns remembered).map (fun told =>
      (told.1.map Answer.status, told.2.1.map fun page => page.occurrences.map fun occurrence =>
        told.2.2.table.read occurrence.hops)) =
      some ([.completed, .compileError, .completed], [[some 1, some 0, none], [some 0], [none]]) := by
    decide +kernel
  obtain ⟨⟨answers, session⟩, responded⟩ := Option.isSome_iff_exists.mp some_
  obtain ⟨pages, last, turned, -, distinct, -, -, apart, -⟩ :=
    depths_final (.direct .empty) (fun _ => 0) responded
  rw [turned, Option.map_some, Option.some.injEq, Prod.mk.injEq] at depths
  exact ⟨answers, session, pages, last, responded, turned, distinct, apart, depths.1, depths.2⟩

end Ledger

end LoxLang
