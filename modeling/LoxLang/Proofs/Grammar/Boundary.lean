import LoxLang.Proofs.Grammar.Allowance
import LoxLang.Proofs.Grammar.InRange
import LoxLang.Proofs.Grammar.Joined
import LoxLang.Proofs.Grammar.Numbered
import Mathlib

/-!
# Statement boundaries

Where a program without errors ends, reading starts afresh.  No statement of it takes a token from what
is behind, whatever that is, unless it starts with an `else`; and recovery from an error behind it never
goes back.

* `Parser.declarations_settled` — the declarations in a list of tokens, for any allowance that is enough.
* `Passage.Reads.continued` — the declarations that read from the tokens ahead, and those behind them.
* **`Program.parse_boundary`** — the tokens of a program without errors, and any others behind them.
-/

namespace LoxLang

open Program (beforeEnd endIndex)

/-- Declarations are the same for all allowances that are enough. -/
lemma Parser.declarations_settled {input : List Token} (inner : ∀ token ∈ input, token.isEnd = false)
    (closing : Option Kind) {n m : Nat} (enough : 4 * input.length + 3 ≤ n)
    (enough' : 4 * input.length + 3 ≤ m) :
    Parser.declarations n closing input = Parser.declarations m closing input := by
  have front : beforeEnd (input ++ [Token.endMark 1]) = input := Program.beforeEnd_front inner rfl
  have ended : ∃ token ∈ input ++ [Token.endMark 1], token.isEnd :=
    ⟨.endMark 1, by simp, rfl⟩
  have size : endIndex (input ++ [Token.endMark 1]) = input.length := by rw [endIndex, front]
  have least (k : Nat) (more : 4 * input.length + 3 ≤ k) :
      Parser.declarations k closing input
        = Parser.declarations (4 * input.length + 3) closing input := by
    have same := (Parser.settled ended (4 * input.length + 3)).declarations k closing 0 more
      (Nat.zero_le _) (by omega)
    rwa [List.drop_zero, front] at same
  rw [least n enough, least m enough']

/-- **Declarations that read from the tokens ahead are found, and then those behind them**, with enough
steps left. -/
theorem Passage.Reads.continued {stmts : List Stmt} {rest : List Token}
    (boundary : Stops [.keyword .else_] rest) :
    ∀ {tokens : List Token} {before : List SyntaxReport},
      (declarations stmts).Reads tokens before rest → ∀ n, 4 * tokens.length + 3 ≤ n →
      ∃ m, 4 * rest.length + 3 ≤ m ∧ ∀ {after : List SyntaxReport} {final : List Token}
        {others : List Stmt}, Parser.Gives (Parser.declarations m none) rest after final others →
        Parser.Gives (Parser.declarations n none) tokens (before ++ after) final
          (stmts ++ others) := by
  induction stmts with
  | nil =>
      rintro tokens before reads n enough
      cases reads
      exact ⟨n, enough, id⟩
  | cons first stmts ih =>
      rintro tokens before reads n enough
      cases reads with
      | @next _ _ _ mid _ before between first others =>
        have shorter := length_lt_of_opens first.opens
        obtain ⟨n, rfl⟩ : ∃ k, n = k + 1 := ⟨n - 1, by omega⟩
        obtain ⟨m, left, behind⟩ := ih others n (by omega)
        refine ⟨m, left, fun gives => ?_⟩
        -- the next declaration does not start with an `else` either
        have stops : Stops [.keyword .else_] mid := by
          rcases others.opens with rfl | opens
          · exact boundary
          · exact stops_of_opens opens (by decide)
        have found := first.found stops n (by omega)
        obtain ⟨token, rest, rfl, -, -⟩ := first.opens
        rw [Parser.declarations, Parser.gives_ahead, List.append_assoc]
        exact found.bind (behind gives).returned

namespace Program

variable {tokens others : List Token}

lemma endMark_behind {front : List Token} (inner : ∀ token ∈ front, token.isEnd = false)
    (others : List Token) : endMark (front ++ others) = endMark others := by
  have missed : front.find? Token.isEnd = none :=
    List.find?_eq_none.mpr fun token member => by simp [inner token member]
  rw [endMark, List.find?_append, missed, Option.none_or, endMark]

/-- The statements and the reports of any tokens, as a parser gives them. -/
lemma gives_parse (tokens : List Token) :
    ∃ rest, Parser.Gives (Parser.declarations (Parser.allowance (beforeEnd tokens)) none)
      (beforeEnd tokens) (parse tokens).reports rest (parse tokens).tree := by
  obtain ⟨stmts, succeeds⟩ :=
    Parser.Succeeds.declarations (Parser.allowance (beforeEnd tokens)) none (beforeEnd tokens)
  rcases step : Parser.declarations (Parser.allowance (beforeEnd tokens)) none (beforeEnd tokens)
    with ⟨reports, rest, outcome⟩
  rw [step] at succeeds
  cases succeeds
  have parsed : parse tokens = ⟨stmts, reports⟩ := by rw [parse, step]
  rw [parsed]
  exact ⟨rest, step⟩

lemma kind_of_mem_beforeEnd (tokens : List Token) :
    ∀ token ∈ beforeEnd tokens, token.kind ≠ .endOfInput := by
  intro token member isLast
  have inside := isEnd_of_mem_beforeEnd member
  rw [isEnd_iff.mpr isLast] at inside
  cases inside

lemma stops_beforeEnd {kinds : List Kind} (stops : Stops kinds tokens) :
    Stops kinds (beforeEnd tokens) := by
  cases tokens with
  | nil => exact stops
  | cons token tokens =>
      rw [beforeEnd, List.takeWhile_cons]
      split_ifs
      · exact stops_cons.mpr (stops_cons.mp stops)
      · exact stops_nil kinds

lemma parse_behind (silent : (parse tokens).reports = [])
    (boundary : Stops [.keyword .else_] others) :
    parse (beforeEnd tokens ++ others)
      = ⟨(parse tokens).tree ++ (parse others).tree, (parse others).reports⟩ := by
  have lines : Revision.same.line = id := rfl
  have read : parse tokens = ⟨(parse tokens).tree, []⟩ := by rw [← silent]
  have front := @Passage.Reads.revised .same (beforeEnd others) _ _ _ rfl _ (parse_eq_iff.mp read)
  simp only [Passage.revised, Revision.front, Token.map_revised_eq_self lines,
    Stmt.revisedAll_eq_self lines _ fun _ _ => rfl, List.map_nil, List.nil_append] at front
  obtain ⟨m, enough, behind⟩ := front.continued (stops_beforeEnd boundary)
    (Parser.allowance (beforeEnd tokens ++ beforeEnd others)) (by rw [Parser.allowance]; omega)
  obtain ⟨rest, gives⟩ := gives_parse others
  -- the steps that are left for the tokens behind are others than those they have on their own
  have same := Parser.declarations_settled (fun _ => isEnd_of_mem_beforeEnd) none enough
    (show 4 * (beforeEnd others).length + 3 ≤ Parser.allowance (beforeEnd others) by
      rw [Parser.allowance]; omega)
  have whole := behind (same.trans gives)
  rw [Parser.Gives] at whole
  rw [parse, beforeEnd_joined (kind_of_mem_beforeEnd tokens), whole, List.nil_append]

/-- **Programs are composed at statement boundaries.**  Behind the tokens of a program without errors,
other tokens read as they do alone, as long as the first of them is no `else`: the statements are those
of the program and then theirs, and the errors are theirs, in their order and with the same tokens ahead.
So it is for statements with numbers of their own, from wherever these are counted, and for the parser
by index, which looks back at tokens. -/
theorem parse_boundary (silent : (parse tokens).reports = [])
    (boundary : Stops [.keyword .else_] others) :
    parse (beforeEnd tokens ++ others)
        = ⟨(parse tokens).tree ++ (parse others).tree, (parse others).reports⟩
      ∧ endMark (beforeEnd tokens ++ others) = endMark others
      ∧ (∀ low early late,
        Stmt.revisedAll .unnumbered (Counted.parse low (beforeEnd tokens ++ others)).1.tree
            = Stmt.revisedAll .unnumbered (Counted.parse early tokens).1.tree
              ++ Stmt.revisedAll .unnumbered (Counted.parse late others).1.tree
          ∧ (Counted.parse low (beforeEnd tokens ++ others)).1.reports
            = (Counted.parse late others).1.reports)
      ∧ ((∃ token ∈ others, token.isEnd) →
        ∀ m, Parser.allowance (beforeEnd tokens ++ beforeEnd others) ≤ m →
          (Indexed.parse m (beforeEnd tokens ++ others) 0).ending
              = .value ((parse tokens).tree ++ (parse others).tree)
            ∧ (Indexed.parse m (beforeEnd tokens ++ others) 0).reports
              = (Indexed.parse m others 0).reports) := by
  have whole := parse_behind silent boundary
  have inner : ∀ token ∈ beforeEnd tokens, token.isEnd = false := fun _ => isEnd_of_mem_beforeEnd
  have mark := endMark_behind inner others
  refine ⟨whole, mark, fun low early late => ?_, fun ended m steps => ?_⟩
  · obtain ⟨joined, told, -⟩ := Counted.parse_numbers low (beforeEnd tokens ++ others)
    obtain ⟨behind, toldBehind, -⟩ := Counted.parse_numbers late others
    rw [joined, told, (Counted.parse_numbers early tokens).1, behind, toldBehind, whole]
    exact ⟨rfl, rfl⟩
  · have endedBoth : ∃ token ∈ beforeEnd tokens ++ others, token.isEnd := by
      obtain ⟨token, member, isLast⟩ := ended
      exact ⟨token, List.mem_append_right _ member, isLast⟩
    rw [← beforeEnd_joined (kind_of_mem_beforeEnd tokens) others] at steps
    have alone : Parser.allowance (beforeEnd others) ≤ m := by
      rw [beforeEnd_joined (kind_of_mem_beforeEnd tokens), Parser.allowance,
        List.length_append] at steps
      rw [Parser.allowance]
      omega
    have course := Indexed.reads_program endedBoth steps
    have behind := Indexed.reads_program ended alone
    refine ⟨?_, ?_⟩
    · rw [course.ending, whole]
    · rw [course.reports, behind.reports, whole]
      exact List.map_congr_left fun report _ => by rw [located, located, mark]

/-- Behind `if (nil) nil;` the tokens of `= nil; print nil;` are told of at their first one, and what
they print is read. -/
theorem parse_boundary_branch :
    let empty := (Kind.keyword .nil).mark
    let tokens : List Token := [(Kind.keyword .if_).mark, Kind.leftParen.mark, empty,
      Kind.rightParen.mark, empty, Kind.semicolon.mark, .endMark 1]
    let others : List Token := [Kind.equal.mark, empty, Kind.semicolon.mark,
      (Kind.keyword .print).mark, empty, Kind.semicolon.mark, .endMark 1]
    (parse tokens).reports = [] ∧ Stops [.keyword .else_] others
      ∧ parse (beforeEnd tokens ++ others)
        = ⟨[.branch (.literal .nil) (.expression (.literal .nil)) none, .print (.literal .nil)],
          [⟨.expected .expression, others.take 6⟩]⟩ := by
  intro empty tokens others
  have first : parse tokens
      = ⟨[.branch (.literal .nil) (.expression (.literal .nil)) none], []⟩ := by
    simp only [tokens, empty]
    cbv
  have second : parse others
      = ⟨[.print (.literal .nil)], [⟨.expected .expression, others.take 6⟩]⟩ := by
    simp only [others, empty]
    cbv
  have silent : (parse tokens).reports = [] := by rw [first]
  have boundary : Stops [.keyword .else_] others := stops_of_kind rfl (by decide)
  refine ⟨silent, boundary, ?_⟩
  rw [(parse_boundary silent boundary).1, first, second]
  rfl

end Program

end LoxLang
