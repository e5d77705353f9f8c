import LoxLang.Proofs.Grammar.Indexed
import Mathlib

/-!
# Index and rest in step

A parser by index and a parser that drops what it read stay in step: wherever the index stands, the
tokens left to the other one are those from there up to the first end mark.  While they do, the index
moves forward, stays at or before that mark, and only reads tokens that are there.

* `Program.endIndex` — where the first end mark stands.
* `Trail` — looks in order, in range and between two indices.
* `Indexed.Passes` — a piece of reading that cannot fail; one lemma for each access.
* **`Indexed.Realizes`** — a parser by index does what a parser does; one lemma for each way to put
  parsers together.
-/

namespace LoxLang

/-! ## The first end mark -/

namespace Program

variable {tokens : List Token} {start : Nat}

/-- The index of the first end mark. -/
def endIndex (tokens : List Token) : Nat := (beforeEnd tokens).length

/-- A report with the token that it names. -/
def located (tokens : List Token) (report : SyntaxReport) : SyntaxError × Token :=
  (report.error, report.place (endMark tokens))

/-- The token at an index: one before the first end mark, or that mark. -/
def tokenAt (tokens : List Token) (start : Nat) : Token :=
  ((beforeEnd tokens).drop start).head?.getD (endMark tokens)

lemma eq_append_endMark (ended : ∃ token ∈ tokens, token.isEnd) :
    ∃ behind, tokens = beforeEnd tokens ++ endMark tokens :: behind ∧ (endMark tokens).isEnd := by
  induction tokens with
  | nil => simp at ended
  | cons first others ih =>
      by_cases last : first.isEnd
      · exact ⟨others, by simp [beforeEnd, endMark, last]⟩
      · have later : ∃ token ∈ others, token.isEnd := by simpa [last] using ended
        obtain ⟨behind, parts, isLast⟩ := ih later
        have front : beforeEnd (first :: others) = first :: beforeEnd others := by
          simp [beforeEnd, last]
        have mark : endMark (first :: others) = endMark others := by simp [endMark, last]
        exact ⟨behind, by rw [front, mark, List.cons_append, ← parts], mark ▸ isLast⟩

lemma isEnd_of_mem_beforeEnd {token : Token} (inside : token ∈ beforeEnd tokens) :
    token.isEnd = false := by
  simpa using List.mem_takeWhile_imp inside

lemma endIndex_lt_length (ended : ∃ token ∈ tokens, token.isEnd) :
    endIndex tokens < tokens.length := by
  obtain ⟨behind, parts, -⟩ := eq_append_endMark ended
  have size := congrArg List.length parts
  simp only [List.length_append, List.length_cons] at size
  unfold endIndex
  omega

/-- Up to the first end mark, the tokens of the list are those that the parser reads. -/
lemma getElem?_tokenAt (ended : ∃ token ∈ tokens, token.isEnd) (within : start ≤ endIndex tokens) :
    tokens[start]? = some (tokenAt tokens start) := by
  obtain ⟨behind, parts, -⟩ := eq_append_endMark ended
  conv_lhs => rw [parts]
  unfold endIndex at within
  rcases Nat.lt_or_eq_of_le within with inside | same
  · rw [List.getElem?_append_left inside, List.getElem?_eq_getElem inside]
    simp [tokenAt, List.head?_drop, inside]
  · simp [tokenAt, same]

lemma drop_eq_cons (inside : start < endIndex tokens) :
    (beforeEnd tokens).drop start =
      tokenAt tokens start :: (beforeEnd tokens).drop (start + 1) := by
  rw [List.drop_eq_getElem_cons inside]
  simp [tokenAt, List.head?_drop, List.getElem?_eq_getElem inside]

lemma drop_endIndex : (beforeEnd tokens).drop (endIndex tokens) = [] := List.drop_length

lemma isEnd_tokenAt (ended : ∃ token ∈ tokens, token.isEnd) (within : start ≤ endIndex tokens) :
    (tokenAt tokens start).isEnd = decide (start = endIndex tokens) := by
  rcases Nat.lt_or_eq_of_le within with inside | rfl
  · have member : tokenAt tokens start ∈ beforeEnd tokens :=
      List.mem_of_mem_drop (drop_eq_cons inside ▸ List.mem_cons_self)
    simp [isEnd_of_mem_beforeEnd member, inside.ne]
  · obtain ⟨behind, -, isLast⟩ := eq_append_endMark ended
    simp [tokenAt, drop_endIndex, isLast]

end Program

open Program

/-! ## Looks in order and in range -/

/-- The index at which a use of the list is over. -/
def Look.position : Look → Nat
  | peek current => current
  | previous current => current
  | declared _ after => after

/-- What was read is there, and a declaration moved the index on. -/
def Look.Sound (tokens : List Token) : Look → Prop
  | peek current => current < tokens.length
  | previous current => 1 ≤ current ∧ current - 1 < tokens.length
  | declared before after => before < after

/-- Uses of the list between two indices, none of which is behind the first end mark. -/
structure Trail (tokens : List Token) (start stop : Nat) (looks : List Look) : Prop where
  forward : start ≤ stop
  within : stop ≤ endIndex tokens
  ordered : looks.Pairwise (·.position ≤ ·.position)
  between : ∀ look ∈ looks, start ≤ look.position ∧ look.position ≤ stop
  sound : ∀ look ∈ looks, look.Sound tokens

namespace Trail

variable {tokens : List Token} {start middle stop : Nat} {looks more : List Look}

lemma nil (within : start ≤ endIndex tokens) : Trail tokens start start [] :=
  ⟨le_rfl, within, .nil, by simp, by simp⟩

lemma single {look : Look} (here : look.position = start) (within : start ≤ endIndex tokens)
    (sound : look.Sound tokens) : Trail tokens start start [look] :=
  ⟨le_rfl, within, List.pairwise_singleton _ _, by simp [here], by simpa using sound⟩

lemma append (first : Trail tokens start middle looks) (second : Trail tokens middle stop more) :
    Trail tokens start stop (looks ++ more) where
  forward := first.forward.trans second.forward
  within := second.within
  ordered := by
    refine List.pairwise_append.mpr ⟨first.ordered, second.ordered, ?_⟩
    intro look seen later more
    exact (first.between look seen).2.trans (second.between later more).1
  between := by
    intro look seen
    rcases List.mem_append.mp seen with early | late
    · exact ⟨(first.between look early).1, (first.between look early).2.trans second.forward⟩
    · exact ⟨first.forward.trans (second.between look late).1, (second.between look late).2⟩
  sound := by
    intro look seen
    exact (List.mem_append.mp seen).elim (first.sound look) (second.sound look)

end Trail

namespace Indexed

variable {α β : Type} {tokens : List Token} {start middle stop : Nat}

/-! ## Reading that cannot fail -/

/-- From one index a piece of reading ends with a value at another one, without errors. -/
def Passes (tokens : List Token) (start : Nat) (read : Indexed α) (value : α) (stop : Nat) : Prop :=
  ∃ looks, read tokens start = ⟨stop, looks, [], .value value⟩ ∧ Trail tokens start stop looks

namespace Passes

lemma pure (within : start ≤ endIndex tokens) (value : α) :
    Passes tokens start (Pure.pure value) value start :=
  ⟨[], rfl, .nil within⟩

lemma bind {first : Indexed α} {second : α → Indexed β} {value : α} {result : β}
    (before : Passes tokens start first value middle)
    (after : Passes tokens middle (second value) result stop) :
    Passes tokens start (first >>= second) result stop := by
  obtain ⟨looks, run, trail⟩ := before
  obtain ⟨more, next, trail'⟩ := after
  refine ⟨looks ++ more, ?_, trail.append trail'⟩
  show Indexed.bind first second tokens start = _
  simp only [Indexed.bind, run, next, List.append_nil]

lemma map {read : Indexed α} {value : α} (f : α → β) (passes : Passes tokens start read value stop) :
    Passes tokens start (f <$> read) (f value) stop := by
  have within : stop ≤ endIndex tokens := by
    obtain ⟨looks, -, trail⟩ := passes
    exact trail.within
  exact passes.bind (.pure within _)

end Passes

section Accesses

variable (ended : ∃ token ∈ tokens, token.isEnd)

include ended

lemma passes_peek (within : start ≤ endIndex tokens) :
    Passes tokens start peek (tokenAt tokens start) start := by
  have sound : Look.Sound tokens (.peek start) := within.trans_lt (endIndex_lt_length ended)
  refine ⟨[.peek start], ?_, .single rfl within sound⟩
  simp only [peek, getElem?_tokenAt ended within, Ending.ofToken?]

lemma passes_previous (within : start + 1 ≤ endIndex tokens) :
    Passes tokens (start + 1) previous (tokenAt tokens start) (start + 1) := by
  have sound : Look.Sound tokens (.previous (start + 1)) :=
    ⟨Nat.succ_pos start, (Nat.le_of_succ_le within).trans_lt (endIndex_lt_length ended)⟩
  refine ⟨[.previous (start + 1)], ?_, .single rfl within sound⟩
  simp only [previous, getElem?_tokenAt ended (Nat.le_of_succ_le within), Ending.ofToken?]

lemma passes_isAtEnd (within : start ≤ endIndex tokens) :
    Passes tokens start isAtEnd (decide (start = endIndex tokens)) start :=
  (passes_peek ended within).bind (isEnd_tokenAt ended within ▸ .pure within _)

/-- No token is of a kind at the end mark, not even of its own. -/
lemma passes_check (within : start ≤ endIndex tokens) (kind : Kind) :
    Passes tokens start (check kind)
      (((beforeEnd tokens).drop start).head?.any (·.kind == kind)) start := by
  refine (passes_isAtEnd ended within).bind ?_
  rcases Nat.lt_or_eq_of_le within with inside | rfl
  · rw [decide_eq_false inside.ne, drop_eq_cons inside]
    exact (passes_peek ended within).bind (.pure within _)
  · rw [decide_eq_true rfl, drop_endIndex]
    exact .pure within _

lemma passes_advance (inside : start < endIndex tokens) :
    Passes tokens start advance (tokenAt tokens start) (start + 1) := by
  have moved : Passes tokens start step () (start + 1) :=
    ⟨[], rfl, Nat.le_succ start, inside, .nil, by simp, by simp⟩
  refine (passes_isAtEnd ended inside.le).bind ?_
  rw [decide_eq_false inside.ne]
  exact moved.bind (passes_previous ended inside)

lemma passes_advance_end (positive : 0 < endIndex tokens) :
    Passes tokens (endIndex tokens) advance (tokenAt tokens (endIndex tokens - 1))
      (endIndex tokens) := by
  obtain ⟨last, atLast⟩ : ∃ last, endIndex tokens = last + 1 := ⟨_, (Nat.succ_pred positive.ne').symm⟩
  have back := passes_previous ended atLast.ge
  rw [← atLast] at back
  refine (passes_isAtEnd ended le_rfl).bind ?_
  rw [decide_eq_true rfl]
  rwa [atLast, Nat.add_sub_cancel, ← atLast]

lemma passes_acceptAny_end (kinds : List Kind) :
    Passes tokens (endIndex tokens) (acceptAny kinds) none (endIndex tokens) := by
  induction kinds with
  | nil => exact .pure le_rfl none
  | cons kind kinds ih =>
      refine (passes_check ended le_rfl kind).bind ?_
      rw [drop_endIndex]
      exact ih

lemma passes_acceptAny (inside : start < endIndex tokens) (kinds : List Kind) :
    if (tokenAt tokens start).kind ∈ kinds
    then Passes tokens start (acceptAny kinds) (some (tokenAt tokens start)) (start + 1)
    else Passes tokens start (acceptAny kinds) none start := by
  induction kinds with
  | nil => exact .pure inside.le none
  | cons kind kinds ih =>
      have looked := passes_check ended inside.le kind
      rw [drop_eq_cons inside, List.head?_cons, Option.any_some] at looked
      by_cases here : (tokenAt tokens start).kind = kind
      · rw [if_pos (here ▸ List.mem_cons_self)]
        rw [beq_iff_eq.mpr here] at looked
        exact looked.bind ((passes_advance ended inside).bind
          ((passes_previous ended inside).map some))
      · rw [beq_eq_false_iff_ne.mpr here] at looked
        simp only [List.mem_cons, here, false_or]
        split
        · rw [if_pos ‹_›] at ih
          exact looked.bind ih
        · rw [if_neg ‹_›] at ih
          exact looked.bind ih

end Accesses

/-! ## Two parsers in step -/

/-- A course from an index did what a step of a parser did, and `reaches` holds of the value and of
the index that they end with.  A raised error names the token at the index. -/
inductive Follows (tokens : List Token) (start : Nat) (reaches : α → Nat → Prop) :
    Course α → Step α → Prop
  | value {stop : Nat} {looks : List Look} {told : List (SyntaxError × Token)}
      {reports : List SyntaxReport} {value : α} (trail : Trail tokens start stop looks)
      (same : told = reports.map (located tokens)) (reached : reaches value stop) :
      Follows tokens start reaches ⟨stop, looks, told, .value value⟩
        ⟨reports, (beforeEnd tokens).drop stop, .ok value⟩
  | raised {stop : Nat} {looks : List Look} {told : List (SyntaxError × Token)}
      {reports : List SyntaxReport} {error : SyntaxError} (trail : Trail tokens start stop looks)
      (same : told = reports.map (located tokens)) :
      Follows tokens start reaches ⟨stop, looks, told, .raised error (tokenAt tokens stop)⟩
        ⟨reports, (beforeEnd tokens).drop stop, .error error⟩

/-- What comes before in a course comes before in the step as well. -/
lemma Follows.after {reaches : α → Nat → Prop} {course : Course α} {step : Step α}
    {looks : List Look} {told : List (SyntaxError × Token)} {reports : List SyntaxReport}
    (follows : Follows tokens middle reaches course step) (trail : Trail tokens start middle looks)
    (same : told = reports.map (located tokens)) :
    Follows tokens start reaches
      ⟨course.current, looks ++ course.looks, told ++ course.reports, course.ending⟩
      ⟨reports ++ step.reports, step.rest, step.outcome⟩ := by
  cases follows with
  | value trail' same' reached =>
      exact .value (trail.append trail') (by rw [same, same', List.map_append]) reached
  | raised trail' same' =>
      exact .raised (trail.append trail') (by rw [same, same', List.map_append])

/-- From an index on, a reading by index does what a parser does with the tokens from there to the
first end mark. -/
def Realizes (tokens : List Token) (start : Nat) (read : Indexed α) (parser : Parser α)
    (reaches : α → Nat → Prop) : Prop :=
  start ≤ endIndex tokens →
    Follows tokens start reaches (read tokens start) (parser ((beforeEnd tokens).drop start))

/-- What may be read was not there, or it was one token. -/
inductive Moved (found : α → Prop) (start : Nat) : Option α → Nat → Prop
  | stayed : Moved found start none start
  | moved {value : α} (seen : found value) : Moved found start (some value) (start + 1)

namespace Realizes

variable {reaches : α → Nat → Prop} {goal : β → Nat → Prop}

lemma pure {value : α} (reached : reaches value start) :
    Realizes tokens start (Pure.pure value) (Pure.pure value) reaches :=
  fun within => .value (.nil within) rfl reached

lemma bind {first : Indexed α} {parser : Parser α} {second : α → Indexed β} {next : α → Parser β}
    (before : Realizes tokens start first parser reaches)
    (after : ∀ value middle, reaches value middle → start ≤ middle → middle ≤ endIndex tokens →
      Realizes tokens middle (second value) (next value) goal) :
    Realizes tokens start (first >>= second) (parser >>= next) goal := by
  intro within
  have whole := before within
  show Follows tokens start goal (Indexed.bind first second tokens start)
    (Parser.bind parser next ((beforeEnd tokens).drop start))
  unfold Indexed.bind Parser.bind
  generalize first tokens start = course at whole ⊢
  generalize parser ((beforeEnd tokens).drop start) = step at whole ⊢
  cases whole with
  | value trail same reached =>
      exact (after _ _ reached trail.forward trail.within trail.within).after trail same
  | raised trail same => exact .raised trail same

lemma mono {read : Indexed α} {parser : Parser α} {weaker : α → Nat → Prop}
    (whole : Realizes tokens start read parser reaches)
    (weaken : ∀ value stop, reaches value stop → weaker value stop) :
    Realizes tokens start read parser weaker := by
  intro within
  have held := whole within
  generalize read tokens start = course at held ⊢
  generalize parser ((beforeEnd tokens).drop start) = step at held ⊢
  cases held with
  | value trail same reached => exact .value trail same (weaken _ _ reached)
  | raised trail same => exact .raised trail same

lemma map {read : Indexed α} {parser : Parser α} {f : α → β}
    (whole : Realizes tokens start read parser reaches)
    (reached : ∀ value stop, reaches value stop → goal (f value) stop) :
    Realizes tokens start (f <$> read) (f <$> parser) goal :=
  whole.bind fun value stop held _ _ => .pure (reached value stop held)

/-- A reading that cannot fail does what a parser without errors does. -/
lemma of_passes {read : Indexed α} {parser : Parser α} {value : α}
    (passes : start ≤ endIndex tokens → Passes tokens start read value stop ∧ reaches value stop ∧
      parser ((beforeEnd tokens).drop start) = ⟨[], (beforeEnd tokens).drop stop, .ok value⟩) :
    Realizes tokens start read parser reaches := by
  intro within
  obtain ⟨⟨looks, run, trail⟩, reached, same⟩ := passes within
  rw [run, same]
  exact .value trail rfl reached

/-- A reading that stays where it is may come first. -/
lemma looking {first : Indexed α} {second : α → Indexed β} {parser : Parser β} {value : α}
    (passes : start ≤ endIndex tokens → Passes tokens start first value start)
    (after : Realizes tokens start (second value) parser goal) :
    Realizes tokens start (first >>= second) parser goal := by
  intro within
  obtain ⟨looks, run, trail⟩ := passes within
  show Follows tokens start goal (Indexed.bind first second tokens start) _
  simp only [Indexed.bind, run]
  exact (after within).after trail List.map_nil.symm

/-- The tokens ahead are those up to the first end mark. -/
lemma ahead {read : Indexed β} {next : List Token → Parser β}
    (after : Realizes tokens start read (next ((beforeEnd tokens).drop start)) goal) :
    Realizes tokens start read (Parser.ahead >>= next) goal := after

/-- After something that may be there, both cases are read on their own. -/
lemma branch {found : α → Prop} {first : Indexed (Option α)} {parser : Parser (Option α)}
    {second : Option α → Indexed β} {next : Option α → Parser β}
    (before : Realizes tokens start first parser (Moved found start))
    (absent : Realizes tokens start (second none) (next none) goal)
    (present : ∀ value, found value → start + 1 ≤ endIndex tokens →
      Realizes tokens (start + 1) (second (some value)) (next (some value)) goal) :
    Realizes tokens start (first >>= second) (parser >>= next) goal := by
  refine before.bind fun value middle moved _ within => ?_
  cases moved with
  | stayed => exact absent
  | moved seen => exact present _ seen within

/-- Something may be told of first. -/
lemma guarded {c : Prop} [Decidable c] {first : Indexed Unit} {parser : Parser Unit}
    {read : Indexed β} {next : Parser β}
    (told : Realizes tokens start first parser fun _ stop => stop = start)
    (after : Realizes tokens start read next goal) :
    Realizes tokens start (if c then first >>= fun _ => read else read)
      (if c then parser >>= fun _ => next else next) goal := by
  split
  · exact told.bind fun _ stop same _ _ => same ▸ after
  · exact after

end Realizes

section Reading

variable (ended : ∃ token ∈ tokens, token.isEnd)

include ended

lemma realizes_check (kind : Kind) :
    Realizes tokens start (check kind) (Parser.isNext kind) (fun _ stop => stop = start) :=
  .of_passes fun within => ⟨passes_check ended within kind, rfl, rfl⟩

lemma realizes_raise (error : SyntaxError) {reaches : α → Nat → Prop} :
    Realizes tokens start (raise error) (Parser.raise error) reaches := by
  intro within
  obtain ⟨looks, run, trail⟩ := passes_peek ended within
  unfold raise
  rw [run]
  exact .raised trail rfl

omit ended in
lemma realizes_report (error : SyntaxError) (place : Nat) :
    Realizes tokens start (report error (tokenAt tokens place))
      (Parser.report error ((beforeEnd tokens).drop place)) (fun _ stop => stop = start) :=
  fun within => .value (.nil within) rfl rfl

lemma realizes_acceptAny (kinds : List Kind) :
    Realizes tokens start (acceptAny kinds) (Parser.acceptAny kinds)
      (Moved (· = tokenAt tokens start) start) := by
  intro within
  rcases Nat.lt_or_eq_of_le within with inside | rfl
  · have passes := passes_acceptAny ended inside kinds
    split at passes
    · refine Realizes.of_passes (fun _ => ⟨passes, .moved rfl, ?_⟩) within
      simp [Parser.acceptAny, Parser.acceptMap, drop_eq_cons inside, *]
    · refine Realizes.of_passes (fun _ => ⟨passes, .stayed, ?_⟩) within
      simp [Parser.acceptAny, Parser.acceptMap, drop_eq_cons inside, *]
  · refine Realizes.of_passes (fun _ => ⟨passes_acceptAny_end ended kinds, .stayed, ?_⟩) within
    simp [Parser.acceptAny, Parser.acceptMap, drop_endIndex]

end Reading

end Indexed

end LoxLang
