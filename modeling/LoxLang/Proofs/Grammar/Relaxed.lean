import LoxLang.Proofs.Grammar.RoundTrip
import LoxLang.Proofs.Grammar.Steady
import LoxLang.Proofs.Grammar.Written
import Mathlib

/-!
# Reading on after a slip

The grammar with its limits dropped: lists of any length, and any operation on the left of an
assignment.  What derives from it is read whole.  The parser reports each slip in the derivation once,
at its token, and nothing else; the tree is the one that the tokens read as.

* `relaxed` — the rules without the limits.
* **`Rule.legible_of_relaxed`** — what derives from a relaxed rule reads as that rule, with its slips.
* **`Program.parse_relaxed`** — so a program that derives from the relaxed rules is read to its end, and
  its reports are the slips of any derivation of it.
-/

namespace LoxLang

open Form ParseTree

/-- At least one, with commas between them. -/
def Form.unlimited (form : Form) : Form := inOrder [form, many (inOrder [token .comma, form])]

/-- The rules of the language, with lists of any length and anything on the left of an assignment. -/
def relaxed : Rule → Form
  | .assignment => inOrder [rule .logicOr, optional (inOrder [token .equal, rule .assignment])]
  | .parameters => unlimited (token .identifier)
  | .arguments => unlimited (rule .expression)
  | name => grammar name

lemma relaxed_firm {name : Rule} (firm : name.slippery = false) : relaxed name = grammar name := by
  cases name with
  | assignment | parameters | «arguments» => cases firm
  | _ => rfl

lemma relaxed_inner {name : Rule} (inner : (rule name).Inner) : (relaxed name).Inner := by
  cases firm : name.slippery with
  | false =>
      rw [relaxed_firm firm]
      exact grammar_inner inner
  | true =>
    cases name with
    | assignment | parameters | «arguments» =>
        simp [relaxed, unlimited, Form.optional, inOrder, Form.Inner]
    | _ => cases firm

/-! ## A name on the left -/

/-- Nothing but a bare variable reads from a single name. -/
lemma Phrase.Reads.eq_variable {target : Expr} {name : Token} {rest : List Token}
    {reports : List SyntaxReport} (named : name.kind = .identifier)
    (stops : Stops (continuing Level.all) rest)
    (reads : (operation Level.all target).Reads (name :: rest) reports rest) :
    target = .variable name none ∧ reports = [] := by
  have found := reads.found List.suffix_rfl stops (16 * (name :: rest).length + Level.all.length)
    (by omega)
  have bare := (Reads.of_name named Level.all).found List.suffix_rfl stops
    (16 * (name :: rest).length + Level.all.length) (by omega)
  rw [Parser.Gives] at found bare
  rw [bare] at found
  cases found
  exact ⟨rfl, rfl⟩

variable {parts : List ParseTree}

/-- The slips on the left of an assignment, those on the right, and the one that it may be itself. -/
lemma slips_assignment (behind : List Token) (left right : List ParseTree) (equals : Token) :
    slips behind (.node .assignment [.node .logicOr left, .leaf equals, .node .assignment right])
      = slips (equals :: (tokensAll right ++ behind)) (.node .logicOr left)
        ++ (slips behind (.node .assignment right)
        ++ if (tokensAll left).map Token.kind = [.identifier] then []
          else [⟨.invalidTarget, equals :: (tokensAll right ++ behind)⟩]) := by
  have parted (parts : List ParseTree) : slips behind (.node .assignment parts)
      = slipsAll behind parts ++ invalidTarget behind parts := rfl
  rw [parted]
  simp only [slipsAll_cons, slipsAll_nil, slips_leaf, tokensAll_cons, tokensAll_nil, tokens_leaf,
    tokens_node, invalidTarget, List.append_nil, List.nil_append, List.cons_append,
    List.append_assoc]
  rfl

lemma legible_assignment (shape : (relaxed .assignment).Shape Rule.Legible parts []) :
    Rule.assignment.Legible parts := by
  intro rest
  obtain ⟨_, ⟨left, rfl, leftLegible⟩, _, assigned, rfl⟩ := shape
  rcases assigned with rfl | ⟨_, ⟨equals, rfl, assigns⟩, _, ⟨inner, rfl, legible⟩, rfl⟩
  · obtain ⟨value, reads⟩ := leftLegible rest
    refine ⟨value, ?_⟩
    simpa [slips, invalidTarget] using Phrase.Reads.plain reads
  · obtain ⟨target, targetReads⟩ := leftLegible (equals :: (tokensAll inner ++ rest))
    obtain ⟨value, reads⟩ := legible rest
    rw [slips_assignment]
    by_cases bare : (tokensAll left).map Token.kind = [.identifier]
    · obtain ⟨name, single, named⟩ := List.map_eq_singleton_iff.mp bare
      rw [single] at targetReads
      obtain ⟨rfl, -⟩ := targetReads.eq_variable named (stops_of_kind assigns (by decide))
      refine ⟨.assign name value none, ?_⟩
      simpa [single, named] using Phrase.Reads.assign targetReads assigns reads
    · have other : ∀ name hops, target ≠ .variable name hops := by
        rintro name hops rfl
        obtain ⟨-, -, single, named⟩ := targetReads.name_of_variable
        have alone : tokensAll left = [name] := List.append_cancel_right single
        rw [alone, List.map_singleton, named] at bare
        exact bare rfl
      refine ⟨target, ?_⟩
      simpa [bare] using Phrase.Reads.mistaken targetReads assigns other reads

/-- **Parts in the shape of a relaxed rule read as that rule**, with their slips. -/
theorem Rule.legible_of_relaxed (name : Rule) (parts : List ParseTree)
    (shape : (relaxed name).Shape Rule.Legible parts []) : name.Legible parts := by
  cases firm : name.slippery with
  | false =>
      rw [relaxed_firm firm] at shape
      exact legible_of_shape firm shape
  | true =>
    cases name with
    | assignment => exact legible_assignment shape
    | parameters =>
        obtain ⟨_, ⟨first, rfl, named⟩, _, others, rfl⟩ := shape
        exact reads_parameters others 0 named
    | «arguments» =>
        intro rest
        obtain ⟨others, ⟨first, rfl, legible⟩, _, further, rfl⟩ := shape
        rw [tokensAll_cons, List.append_assoc]
        exact reads_arguments further 0 legible rest
    | _ => cases firm

/-! ## Slips stop nothing -/

lemma stops_overfull {error : SyntaxError} (mild : error.stops = false) (count : Nat)
    (tokens : List Token) : ∀ report ∈ overfull error count tokens, report.error.stops = false := by
  rw [overfull]
  split_ifs
  · simpa using mild
  · simp

lemma stops_invalidTarget (behind : List Token) (parts : List ParseTree) :
    ∀ report ∈ invalidTarget behind parts, report.error.stops = false := by
  unfold invalidTarget
  split
  · split_ifs
    · simp
    · simp [SyntaxError.stops]
  · simp

mutual

/-- No slip is an error that stops a declaration. -/
lemma stops_slips (behind : List Token) :
    ∀ tree : ParseTree, ∀ report ∈ slips behind tree, report.error.stops = false
  | .leaf _ => by simp
  | .node name parts => by
      cases name with
      | assignment =>
          exact List.forall_mem_append.mpr
            ⟨stops_slipsAll behind parts, stops_invalidTarget behind parts⟩
      | parameters => exact stops_slipsListed rfl 0 behind parts
      | «arguments» => exact stops_slipsListed rfl 0 behind parts
      | _ => exact stops_slipsAll behind parts

lemma stops_slipsAll (behind : List Token) :
    ∀ parts : List ParseTree, ∀ report ∈ slipsAll behind parts, report.error.stops = false
  | [] => by simp
  | part :: parts =>
      List.forall_mem_append.mpr ⟨stops_slips _ part, stops_slipsAll behind parts⟩

lemma stops_slipsListed {error : SyntaxError} (mild : error.stops = false) (count : Nat)
    (behind : List Token) : ∀ parts : List ParseTree,
      ∀ report ∈ slipsListed error count behind parts, report.error.stops = false
  | [] => by simp [slipsListed]
  | [element] =>
      List.forall_mem_append.mpr ⟨stops_overfull mild count _, stops_slips behind element⟩
  | element :: _ :: parts =>
      List.forall_mem_append.mpr ⟨stops_overfull mild count _,
        List.forall_mem_append.mpr
          ⟨stops_slips _ element, stops_slipsListed mild (count + 1) behind parts⟩⟩

end

/-! ## Whole programs -/

namespace Program

/-- Declarations built from the relaxed rules read as as many statements, with their slips. -/
lemma reads_of_builds (built : Builds relaxed (many (rule .declaration)) parts) :
    ∃ stmts, (Passage.declarations stmts).Reads (tokensAll parts) (slipsAll [] parts) []
      ∧ stmts.length = parts.length := by
  have shape := built.shape Rule.legible_of_relaxed []
  rw [List.append_nil] at shape
  obtain ⟨stmts, reports, slipped, count, reads⟩ := reads_declarations shape []
  rw [slipsAll_nil, List.append_nil] at slipped
  rw [slipped]
  exact ⟨stmts, by simpa using reads, count.symm⟩

/-- **Slips do not derail the parse.**  A program that derives from the relaxed rules is read whole: its
statements are what all its tokens read as, the only such reading, and as many as the declarations of
the derivation.  The reports are the slips of the derivation, whichever it is: one at the `=` of each
assignment to something else than a variable, and one at the first token of each parameter and argument
beyond the limit. -/
theorem parse_relaxed {tokens : List Token} (derived : Derives relaxed (rule .program) tokens) :
    ∃ stmts reports, parse tokens = ⟨stmts, reports⟩
      ∧ (Passage.declarations stmts).Reads (beforeEnd tokens) reports []
      ∧ (∀ others told, (Passage.declarations others).Reads (beforeEnd tokens) told [] →
        others = stmts ∧ told = reports)
      ∧ (∀ report ∈ reports, report.error.stops = false)
      ∧ (∃ parts mark, Builds relaxed (many (rule .declaration)) parts
        ∧ tokens = tokensAll parts ++ [mark])
      ∧ ∀ parts mark, Builds relaxed (many (rule .declaration)) parts →
        tokens = tokensAll parts ++ [mark] →
        reports = slipsAll [] parts ∧ stmts.length = parts.length := by
  obtain ⟨front, mark, rfl, ended, declarations⟩ := exists_mark (relaxed_firm rfl) derived
  have before : beforeEnd (front ++ [mark]) = front :=
    beforeEnd_append (declarations.inner (fun _ => relaxed_inner) trivial) ended
  obtain ⟨parts, built, rfl⟩ := declarations.builds
  obtain ⟨stmts, reads, -⟩ := reads_of_builds built
  rw [← before] at reads
  have parsed := parse_of_reads reads
  -- whatever else reads from the tokens is what the parser gives as well
  have unique : ∀ others told,
      (Passage.declarations others).Reads (beforeEnd (tokensAll parts ++ [mark])) told [] →
      others = stmts ∧ told = slipsAll [] parts := by
    intro others told read
    have other := parse_of_reads read
    rw [parsed, Parsed.mk.injEq] at other
    exact ⟨other.1.symm, other.2.symm⟩
  refine ⟨stmts, _, parsed, reads, unique, stops_slipsAll [] parts, ⟨parts, mark, built, rfl⟩, ?_⟩
  intro others last builtOthers same
  obtain ⟨again, readAgain, count⟩ := reads_of_builds builtOthers
  rw [← (List.append_inj' same rfl).1, ← before] at readAgain
  obtain ⟨rfl, slipped⟩ := unique _ _ readAgain
  exact ⟨slipped.symm, count⟩

/-- The derivation of an operand that is a single token, through every row of operators. -/
def operand (token : Token) : ParseTree :=
  .node .logicOr [.node .logicAnd [.node .equality [.node .comparison [.node .term [.node .factor
    [.node .unary [.node .call [.node .primary [.leaf token]]]]]]]]]

/-- An operand without an operator behind it. -/
lemma builds_row {operators : List Kind} {name : Rule} {part : ParseTree}
    (built : Builds relaxed (rule name) [part]) : Builds relaxed (row operators name) [part] :=
  .both built (.both .many_none .nothing)

lemma builds_operand {token : Token} (kind : token.kind ∈ [Kind.keyword .nil, .identifier]) :
    Builds relaxed (rule .logicOr) [operand token] := by
  have primary : Builds relaxed (rule .primary) [.node .primary [.leaf token]] := by
    rcases List.mem_pair.mp kind with kind | kind
    · exact .rule (.right (.right (.right (.right (.left (.token kind))))))
    · exact .rule (.right (.right (.right (.right (.right (.left (.token kind)))))))
  have call : Builds relaxed (rule .call) [.node .call [.node .primary [.leaf token]]] :=
    .rule (.followed primary (.alone .many_none))
  have unary : Builds relaxed (rule .unary) [.node .unary [.node .call [.node .primary
    [.leaf token]]]] := .rule (.right (.left call))
  exact .rule (builds_row (.rule (builds_row (.rule (builds_row (.rule (builds_row
    (.rule (builds_row (.rule (builds_row unary)))))))))))

/-- In `nil = nil = x = nil;` the assignment to `x` is read on the right of two others, which are told
of at their `=`, the inner one first. -/
theorem parse_relaxed_chain :
    let empty := (Kind.keyword .nil).mark
    let equals := Kind.equal.mark
    let tokens : List Token :=
      [empty, equals, empty, equals, .name "x" 1, equals, empty, Kind.semicolon.mark, .endMark 1]
    Derives relaxed (rule .program) tokens
      ∧ ∃ stmts, parse tokens = ⟨stmts,
          [⟨.invalidTarget, (tokens.drop 3).take 5⟩, ⟨.invalidTarget, (tokens.drop 1).take 7⟩]⟩
        ∧ stmts.length = 1 := by
  intro empty equals tokens
  let assigned (target : Token) (value : ParseTree) : ParseTree :=
    .node .assignment [operand target, .leaf equals, value]
  let tree := assigned empty (assigned empty (assigned (.name "x" 1)
    (.node .assignment [operand empty])))
  let parts : List ParseTree := [.node .declaration [.node .statement [.node .exprStmt
    [.node .expression [tree], .leaf Kind.semicolon.mark]]]]
  have last : Builds relaxed (rule .assignment) [.node .assignment [operand empty]] :=
    .rule (.followed (builds_operand (by decide)) (.alone (.left .nothing)))
  have more {target : Token} {value : ParseTree}
      (kind : target.kind ∈ [Kind.keyword .nil, .identifier])
      (built : Builds relaxed (rule .assignment) [value]) :
      Builds relaxed (rule .assignment) [assigned target value] :=
    .rule (.followed (builds_operand kind)
      (.alone (.right (.followed (.token rfl) (.followed built .ended)))))
  have built : Builds relaxed (many (rule .declaration)) parts := by
    refine .many_one (.rule (.right (.right (.left (.rule (.left (.rule (.followed (.rule ?_)
      (.followed (.token rfl) .ended)))))))))
    exact more (by decide) (more (by decide) (more (by decide) last))
  have leaves : tokens = tokensAll parts ++ [.endMark 1] := by
    simp [tokens, parts, tree, assigned, operand]
  have derived : Derives relaxed (rule .program) tokens := by
    rw [leaves]
    exact (derives_program (relaxed_firm rfl) rfl).mpr built.derives
  obtain ⟨stmts, reports, parsed, -, -, -, -, told⟩ := parse_relaxed derived
  obtain ⟨slipped, count⟩ := told parts (.endMark 1) built leaves
  refine ⟨derived, stmts, ?_, count⟩
  rw [parsed, slipped]
  simp [parts, tree, assigned, operand, slips, invalidTarget, tokens, empty, equals, Kind.mark,
    Token.name]

end Program

end LoxLang
