import LoxLang.Proofs.Grammar.InStepRules
import Mathlib

/-!
# Enough steps are enough

The functions for statements count down an allowance.  Four steps for each token left are all that
they can use: with more of them they read the same, report the same and leave the same.  How far each
of them moves on is what `Indexed.Realizes` says, so the tokens left are given by an index.

* `Parser.Settled` — the functions for statements do the same with more steps.
* **`Parser.settled`** — they do, whatever the number of steps that were enough.
-/

namespace LoxLang

open Program (beforeEnd endIndex drop_eq_cons drop_endIndex)

namespace Indexed.Realizes

variable {α β : Type} {tokens : List Token} {start : Nat} {reaches : α → Nat → Prop}

/-- What comes behind a parser only matters where that parser can end. -/
lemma bind_congr {read : Indexed α} {parser : Parser α}
    (realizes : Realizes tokens start read parser reaches) (within : start ≤ endIndex tokens)
    {first second : α → Parser β}
    (same : ∀ value stop, reaches value stop → start ≤ stop → stop ≤ endIndex tokens →
      first value ((beforeEnd tokens).drop stop) = second value ((beforeEnd tokens).drop stop)) :
    (parser >>= first) ((beforeEnd tokens).drop start)
      = (parser >>= second) ((beforeEnd tokens).drop start) := by
  have follows := realizes within
  change Parser.bind parser first _ = Parser.bind parser second _
  unfold Parser.bind
  generalize read tokens start = course at follows
  generalize parser ((beforeEnd tokens).drop start) = step at follows ⊢
  cases follows with
  | value trail _ reached => simp only [same _ _ reached trail.forward trail.within]
  | raised => rfl

end Indexed.Realizes

namespace Parser

open Indexed

variable {α β : Type} {tokens : List Token} {n m start : Nat}

lemma recovering_congr {first second : Parser α} (same : first tokens = second tokens) :
    recovering first tokens = recovering second tokens := by
  rw [recovering, recovering, same]

lemma first_congr {first second : Parser α} (same : first tokens = second tokens)
    (next : α → Parser β) : (first >>= next) tokens = (second >>= next) tokens := by
  change Parser.bind first next tokens = Parser.bind second next tokens
  rw [Parser.bind, Parser.bind, same]

lemma ahead_bind (next : List Token → Parser β) : (ahead >>= next) tokens = next tokens tokens := rfl

/-- The functions for statements do the same with `n` steps as with more, wherever `n` are enough for
the tokens left. -/
structure Settled (tokens : List Token) (n : Nat) : Prop where
  declaration : ∀ m start, n ≤ m → start < endIndex tokens →
    4 * (endIndex tokens - start) + 2 ≤ n →
    declaration m ((beforeEnd tokens).drop start) = declaration n ((beforeEnd tokens).drop start)
  statement : ∀ m start, n ≤ m → start ≤ endIndex tokens →
    4 * (endIndex tokens - start) + 1 ≤ n →
    statement m ((beforeEnd tokens).drop start) = statement n ((beforeEnd tokens).drop start)
  block : ∀ m start, n ≤ m → start ≤ endIndex tokens → 4 * (endIndex tokens - start) + 4 ≤ n →
    block m ((beforeEnd tokens).drop start) = block n ((beforeEnd tokens).drop start)
  declarations : ∀ m closing start, n ≤ m → start ≤ endIndex tokens →
    4 * (endIndex tokens - start) + 3 ≤ n →
    declarations m closing ((beforeEnd tokens).drop start)
      = declarations n closing ((beforeEnd tokens).drop start)

namespace Settled

variable (ended : ∃ token ∈ tokens, token.isEnd)

include ended

lemma declaration_succ (ih : Settled tokens n) (more : n ≤ m) (inside : start < endIndex tokens)
    (enough : 4 * (endIndex tokens - start) + 2 ≤ n + 1) :
    Parser.declaration (m + 1) ((beforeEnd tokens).drop start)
      = Parser.declaration (n + 1) ((beforeEnd tokens).drop start) := by
  rw [Parser.declaration, Parser.declaration]
  refine recovering_congr ?_
  refine (realizes_accept ended (.keyword .fun_)).bind_congr inside.le fun function stop moved _ _ => ?_
  cases moved with
  | moved _ =>
      refine (realizes_signature ended le_rfl).bind_congr inside fun heading middle past _ within => ?_
      exact first_congr (ih.block m middle more within (by omega)) _
  | stayed =>
      refine (realizes_accept ended (.keyword .var)).bind_congr inside.le fun var stop moved _ _ => ?_
      cases moved with
      | moved _ => rfl
      | stayed => exact ih.statement m start more inside.le (by omega)

lemma statement_succ (ih : Settled tokens n) (more : n ≤ m) (within : start ≤ endIndex tokens)
    (enough : 4 * (endIndex tokens - start) + 1 ≤ n + 1) :
    Parser.statement (m + 1) ((beforeEnd tokens).drop start)
      = Parser.statement (n + 1) ((beforeEnd tokens).drop start) := by
  rw [Parser.statement, Parser.statement]
  refine (realizes_opening ended).bind_congr within fun opening stop moved _ inside => ?_
  cases moved with
  | stayed => rfl
  | @moved opening _ =>
  cases opening with
  | forLoop =>
      refine (realizes_forClauses ended le_rfl).bind_congr inside fun clauses middle past _ within => ?_
      exact first_congr (ih.statement m middle more within (by omega)) _
  | branch =>
      refine (realizes_condition ended _ _ le_rfl).bind_congr inside
        fun condition first past _ within => ?_
      rw [first_congr (ih.statement m first more within (by omega))]
      refine ((inStepStatements ended _).statement n first le_rfl (by omega)).bind_congr within
        fun consequent middle past' _ within => ?_
      refine (realizes_accept ended (.keyword .else_)).bind_congr within
        fun otherwise stop moved _ within => ?_
      cases moved with
      | stayed => rfl
      | moved _ => exact first_congr (ih.statement m (middle + 1) more within (by omega)) _
  | loop =>
      refine (realizes_condition ended _ _ le_rfl).bind_congr inside
        fun condition middle past _ within => ?_
      exact first_congr (ih.statement m middle more within (by omega)) _
  | return_ keyword => rfl
  | print => rfl
  | block => exact first_congr (ih.block m (start + 1) more inside (by omega)) _

omit ended in
lemma block_succ (ih : Settled tokens n) (more : n ≤ m) (within : start ≤ endIndex tokens)
    (enough : 4 * (endIndex tokens - start) + 4 ≤ n + 1) :
    Parser.block (m + 1) ((beforeEnd tokens).drop start)
      = Parser.block (n + 1) ((beforeEnd tokens).drop start) := by
  rw [Parser.block, Parser.block]
  exact first_congr (ih.declarations m (some .rightBrace) start more within (by omega)) _

lemma declarations_succ (ih : Settled tokens n) (closing : Option Kind) (more : n ≤ m)
    (within : start ≤ endIndex tokens) (enough : 4 * (endIndex tokens - start) + 3 ≤ n + 1) :
    Parser.declarations (m + 1) closing ((beforeEnd tokens).drop start)
      = Parser.declarations (n + 1) closing ((beforeEnd tokens).drop start) := by
  rw [Parser.declarations, Parser.declarations, ahead_bind, ahead_bind]
  rcases Nat.lt_or_eq_of_le within with inside | rfl
  · rw [drop_eq_cons inside]
    dsimp only [List.head?_cons]
    split_ifs with closed
    · rfl
    · rw [← drop_eq_cons inside, first_congr (ih.declaration m start more inside (by omega))]
      refine ((inStepStatements ended _).declaration n start inside le_rfl (by omega)).bind_congr
        inside.le fun first middle past _ within => ?_
      exact first_congr (ih.declarations m closing middle more within (by omega)) _
  · rw [drop_endIndex]
    rfl

end Settled

/-- **More steps than enough change nothing.** -/
theorem settled (ended : ∃ token ∈ tokens, token.isEnd) (n : Nat) : Settled tokens n := by
  induction n with
  | zero => constructor <;> (intros; omega)
  | succ n ih =>
      constructor
      case declaration =>
        rintro (_ | m) start more inside enough
        · omega
        · exact ih.declaration_succ ended (by omega) inside enough
      case statement =>
        rintro (_ | m) start more within enough
        · omega
        · exact ih.statement_succ ended (by omega) within enough
      case block =>
        rintro (_ | m) start more within enough
        · omega
        · exact ih.block_succ (by omega) within enough
      case declarations =>
        rintro (_ | m) closing start more within enough
        · omega
        · exact ih.declarations_succ ended closing (by omega) within enough

end Parser

end LoxLang
