import Mathlib
import LoxLang.Proofs.Grammar.Recover

/-!
# Where reading goes on behind an error

Behind an error the parser skips the token that it stands at, and then as little as it can: it stops at
the least index behind the error at which a statement may start.

* `Boundary` — an index at which a statement may start; `Resumes` — where reading goes on.
* `Indexed.Reaches` — a piece of reading that cannot fail, for any number of steps.
* **`Indexed.reaches_synchronize`** — the search for the next statement.
-/

namespace LoxLang

open Program (beforeEnd endIndex tokenAt)

/-- The words that a statement can be told by. -/
def startingWords : List Keyword := [.class_, .fun_, .var, .for_, .if_, .while_, .print, .return_]

/-- Where a statement may start: behind a semicolon, at one of the words, or at the end mark. -/
def Boundary (tokens : List Token) (index : Nat) : Prop :=
  (tokenAt tokens (index - 1)).kind = .semicolon ∨
    (∃ word ∈ startingWords, (tokenAt tokens index).kind = .keyword word) ∨ index = endIndex tokens

/-- Where reading goes on behind an error: at the least boundary behind it, unless the error stands at
the end mark. -/
inductive Resumes (tokens : List Token) : (place after : Nat) → Prop
  | atEnd : Resumes tokens (endIndex tokens) (endIndex tokens)
  | skipped {place after : Nat} (before : place < endIndex tokens)
      (least : IsLeast {index | place < index ∧ Boundary tokens index} after) :
      Resumes tokens place after

namespace Resumes

variable {tokens : List Token} {place after : Nat}

lemma within (resumes : Resumes tokens place after) : after ≤ endIndex tokens := by
  cases resumes with
  | atEnd => exact le_rfl
  | skipped before least => exact least.2 ⟨before, .inr (.inr rfl)⟩

lemma forward (resumes : Resumes tokens place after) : place ≤ after := by
  cases resumes with
  | atEnd => exact le_rfl
  | skipped before least => exact least.1.1.le

/-- Reading moves on, but from the end mark. -/
lemma stays (resumes : Resumes tokens place after) (same : place = after) :
    after = endIndex tokens := by
  cases resumes with
  | atEnd => rfl
  | skipped before least => exact absurd same least.1.1.ne

end Resumes

lemma startsStatement_iff (kind : Kind) :
    Parser.startsStatement kind ↔ ∃ word ∈ startingWords, kind = .keyword word := by
  constructor
  · intro starts
    unfold Parser.startsStatement at starts
    split at starts <;> first | exact ⟨_, by decide, rfl⟩ | cases starts
  · rintro ⟨word, listed, rfl⟩
    fin_cases listed <;> rfl

/-- No boundary at an index is no boundary behind the one before it. -/
lemma isLeast_boundary_succ {tokens : List Token} {place stop : Nat}
    (passed : ¬ Boundary tokens (place + 1))
    (least : IsLeast {index | place + 1 < index ∧ Boundary tokens index} stop) :
    IsLeast {index | place < index ∧ Boundary tokens index} stop := by
  refine ⟨⟨(Nat.lt_succ_self place).trans least.1.1, least.1.2⟩, fun index found => ?_⟩
  rcases Nat.lt_or_eq_of_le (Nat.succ_le_of_lt found.1) with later | rfl
  · exact least.2 ⟨later, found.2⟩
  · exact absurd found.2 passed

namespace Indexed

variable {α β : Type} {tokens : List Token} {start middle place : Nat}

/-- From one index a piece of reading ends with a value, without errors, at an index of some kind, unless
its steps are used up. -/
def Reaches (tokens : List Token) (start : Nat) (read : Indexed α) (value : α) (goal : Nat → Prop) :
    Prop :=
  (∃ stop, Passes tokens start read value stop ∧ goal stop) ∨ (read tokens start).ending = .exhausted

lemma Reaches.behind {first : Indexed α} {second : α → Indexed β} {value : α} {result : β}
    {goal : Nat → Prop} (reaches : Reaches tokens middle (second value) result goal)
    (passes : Passes tokens start first value middle) :
    Reaches tokens start (first >>= second) result goal := by
  rcases reaches with ⟨stop, more, found⟩ | stopped
  · exact .inl ⟨stop, passes.bind more, found⟩
  · obtain ⟨looks, run, -⟩ := passes
    refine .inr ?_
    show (Indexed.bind first second tokens start).ending = .exhausted
    simp only [Indexed.bind, run, stopped]

variable (ended : ∃ token ∈ tokens, token.isEnd)

include ended

/-- Behind the token at `place`, the search stops at the first boundary. -/
lemma reaches_settle (m : Nat) (inside : place < endIndex tokens) :
    Reaches tokens (place + 1) (settle m) ()
      (IsLeast {index | place < index ∧ Boundary tokens index}) := by
  induction m generalizing place with
  | zero => exact .inr rfl
  | succ m ih =>
      have here (boundary : Boundary tokens (place + 1)) :
          Reaches tokens (place + 1) (pure ()) ()
            (IsLeast {index | place < index ∧ Boundary tokens index}) :=
        .inl ⟨_, .pure inside (), ⟨Nat.lt_succ_self _, boundary⟩, fun _ found => found.1⟩
      refine Reaches.behind ?_ (passes_isAtEnd ended inside)
      by_cases last : place + 1 = endIndex tokens
      · rw [decide_eq_true last]
        exact here (.inr (.inr last))
      rw [decide_eq_false last]
      refine Reaches.behind ?_ (passes_previous ended inside)
      by_cases semicolon : (tokenAt tokens place).kind = .semicolon
      · rw [if_pos semicolon]
        exact here (.inl semicolon)
      rw [if_neg semicolon]
      refine Reaches.behind ?_ (passes_peek ended inside)
      by_cases starts : Parser.startsStatement (tokenAt tokens (place + 1)).kind
      · rw [if_pos starts]
        exact here (.inr (.inl ((startsStatement_iff _).mp starts)))
      rw [if_neg starts]
      have before : place + 1 < endIndex tokens := Nat.lt_of_le_of_ne inside last
      refine Reaches.behind ?_ (passes_advance ended before)
      have passed : ¬ Boundary tokens (place + 1) := by
        rintro (behind | word | atEnd)
        · exact semicolon behind
        · exact starts ((startsStatement_iff _).mpr word)
        · exact last atEnd
      rcases ih before with ⟨stop, passes, least⟩ | stopped
      · exact .inl ⟨stop, passes, isLeast_boundary_succ passed least⟩
      · exact .inr stopped

/-- **Reading goes on at the least boundary behind an error**, or where it is at the end mark. -/
theorem reaches_synchronize (m : Nat) (positive : 0 < endIndex tokens)
    (within : place ≤ endIndex tokens) :
    Reaches tokens place (synchronize m) () (Resumes tokens place) := by
  rcases Nat.lt_or_eq_of_le within with inside | rfl
  · refine Reaches.behind ?_ (passes_advance ended inside)
    rcases reaches_settle ended m inside with ⟨stop, passes, least⟩ | stopped
    · exact .inl ⟨stop, passes, .skipped inside least⟩
    · exact .inr stopped
  · refine Reaches.behind ?_ (passes_advance_end ended positive)
    cases m with
    | zero => exact .inr rfl
    | succ m =>
        refine Reaches.behind ?_ (passes_isAtEnd ended le_rfl)
        rw [decide_eq_true rfl]
        exact .inl ⟨_, .pure le_rfl (), .atEnd⟩

end Indexed

end LoxLang
