import LoxLang.Proofs.Grammar.InStep

/-!
# Single tokens and recovery by index

What reads one token by its index is in step with what reads it from the front of the rest, and so is
what a raised error costs.  Behind a raised error the index moves on by at least one, as long as the
error arose before the first end mark: the declarations before it have moved it away from the start,
where there would be no token before it.

* `Indexed.realizes_accept`, `Indexed.realizes_expect` — a token that may or must be there.
* `Indexed.passes_synchronize` — skipping to the next statement.
* **`Indexed.realizes_recovering`** — a raised error moves the index on.
-/

namespace LoxLang

open Program (beforeEnd endIndex located tokenAt drop_eq_cons drop_endIndex)

namespace Indexed

variable {α : Type} {tokens : List Token} {start : Nat}

section Reading

variable (ended : ∃ token ∈ tokens, token.isEnd)

include ended

/-! ## One token -/

lemma realizes_accept (kind : Kind) :
    Realizes tokens start (accept kind) (Parser.accept kind)
      (Moved (· = tokenAt tokens start) start) := by
  have same : Parser.accept kind = Parser.acceptAny [kind] := by
    simp [Parser.accept, Parser.acceptAny]
  exact same ▸ realizes_acceptAny ended [kind]

lemma realizes_acceptMap {kinds : List Kind} {f : Token → Option α}
    (listed : ∀ token, (f token).isSome ↔ token.kind ∈ kinds) :
    Realizes tokens start (acceptMap kinds f) (Parser.acceptMap f)
      (Moved (fun _ => True) start) := by
  intro within
  rcases Nat.lt_or_eq_of_le within with inside | rfl
  · have passes := passes_acceptAny ended inside kinds
    split at passes
    · obtain ⟨value, given⟩ := Option.isSome_iff_exists.mp ((listed _).mpr ‹_›)
      refine Realizes.of_passes (fun _ => ⟨passes.bind (.pure inside _), ?_, ?_⟩) within
      · exact given ▸ .moved trivial
      · simp [Parser.acceptMap, drop_eq_cons inside, given]
    · have missing : f (tokenAt tokens start) = none := by
        rw [← Option.not_isSome_iff_eq_none, listed]
        assumption
      refine Realizes.of_passes (fun _ => ⟨passes.bind (.pure within none), .stayed, ?_⟩) within
      simp [Parser.acceptMap, drop_eq_cons inside, missing]
  · have passes := passes_acceptAny_end ended kinds
    refine Realizes.of_passes (fun _ => ⟨passes.bind (.pure le_rfl none), .stayed, ?_⟩) within
    simp [Parser.acceptMap, drop_endIndex]

lemma realizes_constant :
    Realizes tokens start constant (Parser.acceptMap Constant.ofToken?)
      (Moved (fun _ => True) start) := by
  refine realizes_acceptMap ended fun token => ?_
  unfold Constant.ofToken?
  split <;> (try split) <;> simp_all

lemma realizes_opening :
    Realizes tokens start opening (Parser.acceptMap Parser.Opening.ofToken?)
      (Moved (fun _ => True) start) := by
  refine realizes_acceptMap ended fun token => ?_
  unfold Parser.Opening.ofToken?
  split <;> simp_all

lemma realizes_expect (kind : Kind) (what : Expectation) :
    Realizes tokens start (expect kind what) (Parser.expect kind what)
      (fun _ stop => stop = start + 1) := by
  intro within
  refine Realizes.looking (fun within => passes_check ended within kind) ?_ within
  have raised (absent : Parser.accept kind ((beforeEnd tokens).drop start) =
      ⟨[], (beforeEnd tokens).drop start, .ok none⟩) :
      Realizes tokens start (raise (.expected what)) (Parser.expect kind what)
        (fun _ stop => stop = start + 1) := by
    have same : Parser.expect kind what ((beforeEnd tokens).drop start) =
        Parser.raise (.expected what) ((beforeEnd tokens).drop start) := by
      show Parser.bind (Parser.accept kind) _ _ = _
      simp only [Parser.bind, absent]
      rfl
    intro within
    rw [same]
    exact realizes_raise ended (.expected what) within
  rcases Nat.lt_or_eq_of_le within with inside | rfl
  · rw [drop_eq_cons inside, List.head?_cons, Option.any_some]
    by_cases here : (tokenAt tokens start).kind = kind
    · rw [beq_iff_eq.mpr here]
      refine .of_passes fun _ => ⟨passes_advance ended inside, rfl, ?_⟩
      show Parser.bind (Parser.accept kind) _ _ = _
      simp only [Parser.bind, Parser.accept, Parser.acceptMap, drop_eq_cons inside, if_pos here]
      rfl
    · rw [beq_eq_false_iff_ne.mpr here]
      exact raised (by
        simp only [Parser.accept, Parser.acceptMap, drop_eq_cons inside, if_neg here])
  · rw [drop_endIndex]
    exact raised (by simp only [Parser.accept, Parser.acceptMap, drop_endIndex])

/-- An error is told of at the token at the index. -/
lemma realizes_tell (error : SyntaxError) :
    Realizes tokens start (peek >>= report error)
      (Parser.report error ((beforeEnd tokens).drop start)) (fun _ stop => stop = start) :=
  .looking (passes_peek ended) (realizes_report error start)

/-! ## Recovery -/

/-- With a step for each token left, the search for the next statement ends where the parser's does. -/
lemma passes_settle {m : Nat} (within : start + 1 ≤ endIndex tokens)
    (steps : endIndex tokens - start ≤ m) :
    ∃ stop, Passes tokens (start + 1) (settle m) () stop ∧
      (beforeEnd tokens).drop stop =
        Parser.skipFrom (tokenAt tokens start) ((beforeEnd tokens).drop (start + 1)) := by
  induction m generalizing start with
  | zero => omega
  | succ m ih =>
      have atEnd := passes_isAtEnd ended within
      rcases Nat.lt_or_eq_of_le within with inside | last
      · rw [decide_eq_false inside.ne] at atEnd
        rw [drop_eq_cons inside, Parser.skipFrom]
        by_cases semicolon : (tokenAt tokens start).kind = .semicolon
        · refine ⟨start + 1, atEnd.bind ((passes_previous ended within).bind ?_), ?_⟩
          · rw [if_pos semicolon]
            exact .pure within ()
          · rw [if_pos (.inl semicolon), drop_eq_cons inside]
        · by_cases starts : Parser.startsStatement (tokenAt tokens (start + 1)).kind
          · refine ⟨start + 1, atEnd.bind ((passes_previous ended within).bind ?_), ?_⟩
            · rw [if_neg semicolon]
              refine (passes_peek ended within).bind ?_
              rw [if_pos starts]
              exact .pure within ()
            · rw [if_pos (.inr starts), drop_eq_cons inside]
          · obtain ⟨stop, passes, same⟩ := ih inside (by omega)
            refine ⟨stop, atEnd.bind ((passes_previous ended within).bind ?_), ?_⟩
            · rw [if_neg semicolon]
              refine (passes_peek ended within).bind ?_
              rw [if_neg starts]
              exact (passes_advance ended inside).bind passes
            · rw [if_neg (not_or.mpr ⟨semicolon, starts⟩), same]
      · rw [decide_eq_true last] at atEnd
        refine ⟨start + 1, atEnd.bind (.pure within ()), ?_⟩
        rw [last, drop_endIndex, Parser.skipFrom]

lemma passes_synchronize {m : Nat} (positive : 0 < endIndex tokens)
    (within : start ≤ endIndex tokens) (steps : endIndex tokens - start < m) :
    ∃ stop, Passes tokens start (synchronize m) () stop ∧
      (beforeEnd tokens).drop stop = Parser.skip ((beforeEnd tokens).drop start) ∧
      (start < endIndex tokens → start < stop) := by
  rcases Nat.lt_or_eq_of_le within with inside | rfl
  · obtain ⟨stop, passes, same⟩ := passes_settle ended inside steps.le
    have forward : start + 1 ≤ stop := by
      obtain ⟨looks, -, trail⟩ := passes
      exact trail.forward
    refine ⟨stop, (passes_advance ended inside).bind passes, ?_, fun _ => forward⟩
    rw [same, drop_eq_cons inside, Parser.skip]
  · obtain ⟨last, atLast⟩ : ∃ last, endIndex tokens = last + 1 :=
      ⟨_, (Nat.succ_pred positive.ne').symm⟩
    obtain ⟨stop, passes, same⟩ := passes_settle ended atLast.ge (m := m) (by omega)
    rw [← atLast] at passes same
    refine ⟨stop, (passes_advance_end ended positive).bind passes, ?_, fun inside =>
      absurd inside (lt_irrefl _)⟩
    rw [same, drop_endIndex, Parser.skipFrom, Parser.skip]

/-- The handler of a raised error tells of it and skips what the parser skips. -/
lemma run_recover {m : Nat} (positive : 0 < endIndex tokens) (within : start ≤ endIndex tokens)
    (steps : endIndex tokens - start < m) (error : SyntaxError) :
    ∃ stop looks, recover m error (tokenAt tokens start) tokens start =
        (⟨stop, looks, [(error, tokenAt tokens start)], .value none⟩ : Course (Option α)) ∧
      Trail tokens start stop looks ∧
      (beforeEnd tokens).drop stop = Parser.skip ((beforeEnd tokens).drop start) ∧
      (start < endIndex tokens → start < stop) := by
  obtain ⟨stop, passes, same, moved⟩ := passes_synchronize ended positive within steps
  obtain ⟨looks, run, trail⟩ := passes.map fun _ => (none : Option α)
  refine ⟨stop, looks, ?_, trail, same, moved⟩
  show Indexed.bind (report error (tokenAt tokens start)) (fun _ => (fun _ => none) <$> synchronize m)
    tokens start = _
  simp only [Indexed.bind, report, run, List.nil_append, List.append_nil]

lemma realizes_recovering {m : Nat} {read : Indexed α} {parser : Parser α}
    (inside : start < endIndex tokens) (steps : endIndex tokens - start < m)
    (whole : Realizes tokens start read parser fun _ stop => start < stop) :
    Realizes tokens start (recovering m read) (Parser.recovering parser)
      fun _ stop => start < stop := by
  intro within
  have held := whole within
  have mapped : (some <$> read) tokens start =
      Indexed.bind read (fun value => Pure.pure (some value)) tokens start := rfl
  unfold recovering catching Parser.recovering
  rw [mapped, Indexed.bind]
  generalize read tokens start = course at held ⊢
  generalize parser ((beforeEnd tokens).drop start) = step at held ⊢
  cases held with
  | value trail same reached =>
      exact .value (trail.append (.nil trail.within)) (by rw [← same]; exact List.append_nil _) reached
  | @raised middle looks told reports error trail same =>
      have left : endIndex tokens - middle < m :=
        (Nat.sub_le_sub_left trail.forward _).trans_lt steps
      obtain ⟨stop, more, run, trail', skipped, moved⟩ :=
        run_recover (α := α) ended (Nat.zero_lt_of_lt inside) trail.within left error
      have later : start < stop := by
        rcases Nat.lt_or_eq_of_le trail.within with before | rfl
        · exact trail.forward.trans_lt (moved before)
        · exact inside.trans_le trail'.forward
      simp only [run, ← skipped]
      refine .value (trail.append trail') ?_ later
      rw [same, List.map_append]
      rfl

omit ended in
lemma realizes_declaring {read : Indexed α} {parser : Parser α}
    (whole : Realizes tokens start read parser fun _ stop => start < stop) :
    Realizes tokens start (declaring read) parser fun _ stop => start < stop := by
  intro within
  have held := whole within
  unfold declaring
  generalize read tokens start = course at held ⊢
  generalize parser ((beforeEnd tokens).drop start) = step at held ⊢
  cases held with
  | value trail same reached =>
      exact .value (trail.append (.single rfl trail.within reached)) same reached
  | raised trail same => exact .raised trail same

end Reading

end Indexed

end LoxLang
