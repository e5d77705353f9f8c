import LoxLang.Proofs.Grammar.InStepRules

/-!
# The parser ends and stays in range

With a token list that holds an end mark, however the tokens before and behind it are arranged, the
parser by index ends with what the parser of the rest gives and tells of the same errors.  On the way
it reads tokens that are there only, never moves its index back or behind the first end mark, and moves
it on with every declaration.

* `Parser.Succeeds` — a parser that never raises an error, as the one of declarations.
* `Indexed.Reads` — a whole reading by index: its end, its errors and its looks.
* **`Indexed.reads_program`**, **`Indexed.reads_expression`** — the two parsers of whole inputs.
* **`Indexed.total_inRange`** — both, and that the tokens behind the first end mark do not matter.
-/

namespace LoxLang

open Program (beforeEnd endMark endIndex located tokenAt drop_eq_cons drop_endIndex)

namespace Parser

variable {α β : Type}

/-- Whatever is read, the parser ends with a value. -/
def Succeeds (parser : Parser α) : Prop := ∀ tokens, ∃ value, (parser tokens).outcome = .ok value

namespace Succeeds

lemma pure (value : α) : Succeeds (Pure.pure value) := fun _ => ⟨value, rfl⟩

lemma bind {first : Parser α} {second : α → Parser β} (before : Succeeds first)
    (after : ∀ value, Succeeds (second value)) : Succeeds (first >>= second) := by
  intro tokens
  obtain ⟨value, found⟩ := before tokens
  show ∃ result, (Parser.bind first second tokens).outcome = .ok result
  unfold Parser.bind
  generalize first tokens = step at found ⊢
  obtain ⟨reports, rest, error | other⟩ := step
  · cases found
  · exact after other rest

lemma recovering (parser : Parser α) : Succeeds (recovering parser) := by
  intro tokens
  unfold Parser.recovering
  rcases parser tokens with ⟨reports, rest, error | value⟩
  · exact ⟨none, rfl⟩
  · exact ⟨some value, rfl⟩

lemma declaration (n : Nat) : Succeeds (declaration n) := by
  cases n with
  | zero => exact recovering _
  | succ n => exact recovering _

lemma declarations (n : Nat) (closing : Option Kind) : Succeeds (declarations n closing) := by
  induction n with
  | zero => exact .pure []
  | succ n ih =>
      refine .bind (fun tokens => ⟨tokens, rfl⟩) fun here => ?_
      cases here.head? with
      | none => exact .pure []
      | some token =>
          dsimp only
          split
          · exact .pure []
          · exact .bind (declaration n) fun first => .bind ih fun others => .pure _

end Succeeds

/-- The expression that all tokens consist of. -/
def wholeExpression : Parser (Option Expr) := do
  let value ← expression
  let here ← ahead
  if here.isEmpty then return some value else raise (.expected .endOfExpression)

end Parser

namespace Program

variable {tokens other : List Token} {reports : List SyntaxReport} {rest : List Token}

lemma parseExpression_of_value {value : Option Expr}
    (run : Parser.wholeExpression (beforeEnd tokens) = ⟨reports, rest, .ok value⟩) :
    parseExpression tokens = ⟨value, reports⟩ := by
  change Parser.bind Parser.expression _ _ = _ at run
  unfold parseExpression
  unfold Parser.bind at run
  generalize Parser.expression (beforeEnd tokens) = step at run ⊢
  obtain ⟨found, _ | ⟨token, left⟩, error | value⟩ := step
  · cases run
  · cases run
    exact congrArg (Parsed.mk (some _)) (List.append_nil found).symm
  · cases run
  · cases run

lemma parseExpression_of_error {error : SyntaxError}
    (run : Parser.wholeExpression (beforeEnd tokens) = ⟨reports, rest, .error error⟩) :
    parseExpression tokens = ⟨none, reports ++ [⟨error, rest⟩]⟩ := by
  change Parser.bind Parser.expression _ _ = _ at run
  unfold parseExpression
  unfold Parser.bind at run
  generalize Parser.expression (beforeEnd tokens) = step at run ⊢
  obtain ⟨found, _ | ⟨token, left⟩, error | value⟩ := step
  · cases run
    rfl
  · cases run
  · cases run
    rfl
  · cases run
    exact congrArg (fun told => Parsed.mk none (told ++ [_])) (List.append_nil found).symm

section Front

variable {front behind : List Token} {mark : Token}
variable (inside : ∀ token ∈ front, token.isEnd = false) (last : mark.isEnd)

include inside last

lemma beforeEnd_front : beforeEnd (front ++ mark :: behind) = front := by
  have kept : ∀ token ∈ front, (!token.isEnd) = true := fun token member => by
    rw [inside token member, Bool.not_false]
  rw [beforeEnd, List.takeWhile_append_of_pos kept]
  simp [last]

lemma endMark_front : endMark (front ++ mark :: behind) = mark := by
  have missed : front.find? Token.isEnd = none :=
    List.find?_eq_none.mpr fun token member => by simp [inside token member]
  rw [endMark, List.find?_append, missed]
  simp [last]

end Front

/-- What the parser reads is settled by the tokens up to the first end mark. -/
lemma beforeEnd_eq_of_take_eq (ended : ∃ token ∈ tokens, token.isEnd)
    (same : other.take (endIndex tokens + 1) = tokens.take (endIndex tokens + 1)) :
    beforeEnd other = beforeEnd tokens ∧ endMark other = endMark tokens ∧
      ∃ token ∈ other, token.isEnd := by
  obtain ⟨behind, parts, last⟩ := eq_append_endMark ended
  have front : (beforeEnd tokens ++ endMark tokens :: behind).take (endIndex tokens + 1) =
      beforeEnd tokens ++ [endMark tokens] := by
    simp [endIndex, List.take_append]
  rw [← parts] at front
  have parts' : other =
      beforeEnd tokens ++ endMark tokens :: other.drop (endIndex tokens + 1) := by
    conv_lhs => rw [← List.take_append_drop (endIndex tokens + 1) other, same, front]
    rw [List.append_assoc, List.singleton_append]
  have inside : ∀ token ∈ beforeEnd tokens, token.isEnd = false := fun _ => isEnd_of_mem_beforeEnd
  refine ⟨?_, ?_, endMark tokens, ?_, last⟩
  · rw [parts', beforeEnd_front inside last]
  · rw [parts', endMark_front inside last]
  · rw [parts']
    exact List.mem_append_right _ List.mem_cons_self

end Program

namespace Indexed

variable {α : Type} {tokens : List Token} {m : Nat}

/-- A reading of a whole list ended with what was parsed, told of the errors in it, and its index went
from the start to the first end mark at most, past tokens that are there. -/
structure Reads (tokens : List Token) (course : Course α) (parsed : Parsed α) : Prop where
  ending : course.ending = .value parsed.tree
  reports : course.reports = parsed.reports.map (located tokens)
  trail : Trail tokens 0 course.current course.looks

/-- **The parser of programs by index ends, in range, with what the parser gives.** -/
theorem reads_program (ended : ∃ token ∈ tokens, token.isEnd)
    (steps : Parser.allowance (beforeEnd tokens) ≤ m) :
    Reads tokens (parse m tokens 0) (Program.parse tokens) := by
  have size : Parser.allowance (beforeEnd tokens) = 16 * (endIndex tokens + 1) := rfl
  have whole := (inStepStatements ended m).declarations (Parser.allowance (beforeEnd tokens)) none 0
    (by omega) (by omega) (Nat.zero_le _)
  obtain ⟨statements, succeeds⟩ :=
    Parser.Succeeds.declarations (Parser.allowance (beforeEnd tokens)) none (beforeEnd tokens)
  rw [List.drop_zero] at whole
  simp only [parse, Program.parse]
  generalize assembly.declarations m none tokens 0 = course at whole ⊢
  generalize Parser.declarations _ none (beforeEnd tokens) = step at whole succeeds ⊢
  cases whole with
  | value trail same _ => exact ⟨rfl, same, trail⟩
  | raised trail same => cases succeeds

lemma realizes_wholeExpression (ended : ∃ token ∈ tokens, token.isEnd) {start : Nat}
    (steps : 16 * (endIndex tokens - start) + 10 ≤ m) :
    Realizes tokens start (wholeExpression m) Parser.wholeExpression fun _ _ => True := by
  refine (realizes_expression ended steps).bind fun value middle _ _ within => ?_
  have atEnd := passes_isAtEnd ended within
  refine Realizes.looking (fun _ => atEnd) (.ahead ?_)
  rcases Nat.lt_or_eq_of_le within with inside | rfl
  · rw [decide_eq_false inside.ne, drop_eq_cons inside]
    exact realizes_raise ended _
  · rw [decide_eq_true rfl, drop_endIndex]
    exact .pure trivial

/-- **The parser of one expression by index ends, in range, with what the parser gives.** -/
theorem reads_expression (ended : ∃ token ∈ tokens, token.isEnd)
    (steps : Parser.allowance (beforeEnd tokens) ≤ m) :
    Reads tokens (parseExpression m tokens 0) (Program.parseExpression tokens) := by
  have size : Parser.allowance (beforeEnd tokens) = 16 * (endIndex tokens + 1) := rfl
  have enough : 16 * (endIndex tokens - 0) + 10 ≤ m := by omega
  have whole := realizes_wholeExpression ended enough (Nat.zero_le (endIndex tokens))
  rw [List.drop_zero] at whole
  unfold parseExpression catching
  generalize wholeExpression m tokens 0 = course at whole ⊢
  generalize parsed : Parser.wholeExpression (beforeEnd tokens) = step at whole
  cases whole with
  | value trail same _ =>
      rw [Program.parseExpression_of_value parsed]
      exact ⟨rfl, same, trail⟩
  | raised trail same =>
      rw [Program.parseExpression_of_error parsed]
      refine ⟨rfl, ?_, trail.append (.nil trail.within)⟩
      rw [same, List.map_append]
      rfl

/-- **The parser is total and stays in range.**  For a token list with an end mark, and for every large
number of steps, both parsers by index end with what the parsers give; the index never moves back or
behind the first end mark, every token that is read is there, and every declaration moves the index on.
Another list with the same tokens up to the first end mark gives the same. -/
theorem total_inRange (ended : ∃ token ∈ tokens, token.isEnd)
    (steps : Parser.allowance (beforeEnd tokens) ≤ m) :
    Reads tokens (parse m tokens 0) (Program.parse tokens) ∧
      Reads tokens (parseExpression m tokens 0) (Program.parseExpression tokens) ∧
      ∀ other : List Token, other.take (endIndex tokens + 1) = tokens.take (endIndex tokens + 1) →
        (parse m other 0).ending = (parse m tokens 0).ending ∧
        (parse m other 0).reports = (parse m tokens 0).reports ∧
        (parseExpression m other 0).ending = (parseExpression m tokens 0).ending ∧
        (parseExpression m other 0).reports = (parseExpression m tokens 0).reports := by
  have program := reads_program ended steps
  have expression := reads_expression ended steps
  refine ⟨program, expression, fun other same => ?_⟩
  obtain ⟨before, mark, ended'⟩ := Program.beforeEnd_eq_of_take_eq ended same
  have steps' : Parser.allowance (beforeEnd other) ≤ m := before ▸ steps
  have program' := reads_program ended' steps'
  have expression' := reads_expression ended' steps'
  have parsed : Program.parse other = Program.parse tokens := by
    unfold Program.parse
    rw [before]
  have parsed' : Program.parseExpression other = Program.parseExpression tokens := by
    unfold Program.parseExpression
    rw [before]
  have names : located other = located tokens := by
    unfold located
    rw [mark]
  refine ⟨?_, ?_, ?_, ?_⟩
  · rw [program'.ending, program.ending, parsed]
  · rw [program'.reports, program.reports, parsed, names]
  · rw [expression'.ending, expression.ending, parsed']
  · rw [expression'.reports, expression.reports, parsed', names]

/-- A program that starts with an error, with an end mark inside. -/
def stray : List Token :=
  [⟨.rightParen, ")", none, 1⟩, ⟨.semicolon, ";", none, 1⟩, .endMark 1, ⟨.plus, "+", none, 1⟩,
    .endMark 2]

/-- A stray parenthesis before the first of two end marks is skipped together with what follows. -/
theorem total_inRange_stray :
    (∃ token ∈ stray, token.isEnd) ∧ Parser.allowance (beforeEnd stray) ≤ 48 ∧
      Reads stray (parse 48 stray 0) (Program.parse stray) ∧
      Reads stray (parseExpression 48 stray 0) (Program.parseExpression stray) ∧
      (parse 48 (stray.take 3) 0).ending = (parse 48 stray 0).ending ∧
      .declared 0 2 ∈ (parse 48 stray 0).looks ∧ (parse 48 stray 0).reports.length = 1 := by
  have ended : ∃ token ∈ stray, token.isEnd := ⟨.endMark 1, by decide, rfl⟩
  have steps : Parser.allowance (beforeEnd stray) ≤ 48 := by decide
  obtain ⟨program, expression, front⟩ := total_inRange ended steps
  exact ⟨ended, steps, program, expression, (front (stray.take 3) rfl).1, by decide, by decide⟩

end Indexed

end LoxLang
