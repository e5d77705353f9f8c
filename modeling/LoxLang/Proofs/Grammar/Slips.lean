import LoxLang.Proofs.Grammar.Complete
import LoxLang.Proofs.Grammar.ParseTree
import Mathlib

/-!
# Slips

Some errors stop nothing: a left side that cannot be assigned, and a parameter or an argument too many.
These *slips* are told from a derivation alone, without reading anything, and what derives reads with
just them as its reports.

A derivation may give an `else` to any of several statements that are still open.  It is a reading all
the same: `Passage.Reads.attach` gives the `else` to the innermost one, where the parser looks for it.

* `ParseTree.slips` — the slips in a derivation, in the order in which they are noticed.
* `Rule.Reads` — what tokens that derive from a rule read as, with reports.
* `Rule.Legible` — what the parts of a rule read as, with their slips, whatever is behind them.
* **`Rule.legible_of_shape`** — parts in the shape of a rule are legible when the rules in them are.
-/

namespace LoxLang

open Form

/-- The rules that a slip is told of. -/
def Rule.slippery : Rule → Bool
  | .assignment => true
  | .parameters => true
  | .arguments => true
  | _ => false

namespace ParseTree

/-- The slip in an assignment: its left side is no bare variable. -/
def invalidTarget (behind : List Token) : List ParseTree → List SyntaxReport
  | [target, leaf equals, value] =>
    if target.tokens.map Token.kind = [.identifier] then []
    else [⟨.invalidTarget, equals :: (value.tokens ++ behind)⟩]
  | _ => []

mutual

/-- The slips in a derivation with tokens behind it.  An assignment is noticed after all that is in it,
an element of a list before. -/
def slips (behind : List Token) : ParseTree → List SyntaxReport
  | leaf _ => []
  | node name parts =>
    match name with
    | .assignment => slipsAll behind parts ++ invalidTarget behind parts
    | .parameters => slipsListed .tooManyParameters 0 behind parts
    | .arguments => slipsListed .tooManyArguments 0 behind parts
    | _ => slipsAll behind parts

/-- The slips in derivations one behind the other. -/
def slipsAll (behind : List Token) : List ParseTree → List SyntaxReport
  | [] => []
  | part :: parts => slips (tokensAll parts ++ behind) part ++ slipsAll behind parts

/-- The slips in the elements of a list, with what separates them, behind `count` others: each element
beyond the limit is one, and others may be in it. -/
def slipsListed (error : SyntaxError) (count : Nat) (behind : List Token) :
    List ParseTree → List SyntaxReport
  | [] => []
  | [element] => overfull error count (element.tokens ++ behind) ++ slips behind element
  | element :: comma :: parts =>
    let next := comma.tokens ++ (tokensAll parts ++ behind)
    overfull error count (element.tokens ++ next)
      ++ (slips next element ++ slipsListed error (count + 1) behind parts)

end

@[simp] lemma slips_leaf (behind : List Token) (token : Token) : slips behind (leaf token) = [] := rfl

@[simp] lemma slipsAll_nil (behind : List Token) : slipsAll behind [] = [] := rfl

@[simp] lemma slipsAll_cons (behind : List Token) (part : ParseTree) (parts : List ParseTree) :
    slipsAll behind (part :: parts)
      = slips (tokensAll parts ++ behind) part ++ slipsAll behind parts := rfl

/-- Other rules only have the slips of their parts. -/
lemma slips_firm {name : Rule} (firm : name.slippery = false) (behind : List Token)
    (parts : List ParseTree) : slips behind (node name parts) = slipsAll behind parts := by
  cases name with
  | assignment | parameters | «arguments» => cases firm
  | _ => rfl

end ParseTree

open ParseTree

/-- What the tokens in front of `rest` read as when they derive from a rule. -/
def Rule.Reads : Rule → List Token → List SyntaxReport → List Token → Prop
  | .program, tokens, reports, rest => ∃ stmts mark,
      (Passage.declarations stmts).Reads tokens reports (mark :: rest) ∧ mark.kind = .endOfInput
  | .declaration, tokens, reports, rest
  | .funDecl, tokens, reports, rest => ∃ stmt, (Passage.declaration stmt).Reads tokens reports rest
  | .varDecl, tokens, reports, rest => ∃ keyword mid stmt, tokens = keyword :: mid
      ∧ keyword.kind = .keyword .var ∧ VariableReads stmt mid reports rest
  | .exprStmt, tokens, reports, rest => ∃ value semicolon : _,
      Expr.Reads value tokens reports (semicolon :: rest) ∧ semicolon.kind = .semicolon
  | .block, tokens, reports, rest => ∃ opening mid body closing, tokens = opening :: mid
      ∧ opening.kind = .leftBrace ∧ (Passage.declarations body).Reads mid reports (closing :: rest)
      ∧ closing.kind = .rightBrace
  | .statement, tokens, reports, rest
  | .printStmt, tokens, reports, rest
  | .ifStmt, tokens, reports, rest
  | .whileStmt, tokens, reports, rest
  | .forStmt, tokens, reports, rest
  | .returnStmt, tokens, reports, rest =>
    ∃ isOpen stmt, (Passage.statement isOpen stmt).Reads tokens reports rest
  | .parameters, tokens, reports, rest => ∃ names, ParametersRead 0 names tokens reports rest
  | .arguments, tokens, reports, rest =>
    ∃ values, (Phrase.arguments 0 values).Reads tokens reports rest
  | .expression, tokens, reports, rest
  | .assignment, tokens, reports, rest =>
    ∃ value, (Phrase.assignment value).Reads tokens reports rest
  | .logicOr, tokens, reports, rest =>
    ∃ value, (Phrase.operation Level.all value).Reads tokens reports rest
  | .logicAnd, tokens, reports, rest =>
    ∃ value, (Phrase.operation (Level.all.drop 1) value).Reads tokens reports rest
  | .equality, tokens, reports, rest =>
    ∃ value, (Phrase.operation (Level.all.drop 2) value).Reads tokens reports rest
  | .comparison, tokens, reports, rest =>
    ∃ value, (Phrase.operation (Level.all.drop 3) value).Reads tokens reports rest
  | .term, tokens, reports, rest =>
    ∃ value, (Phrase.operation (Level.all.drop 4) value).Reads tokens reports rest
  | .factor, tokens, reports, rest =>
    ∃ value, (Phrase.operation (Level.all.drop 5) value).Reads tokens reports rest
  | .unary, tokens, reports, rest
  | .call, tokens, reports, rest => ∃ value, (Phrase.unary value).Reads tokens reports rest
  | .primary, tokens, reports, rest => ∃ value, (Phrase.primary value).Reads tokens reports rest

/-- The parts of a rule read as that rule with their slips, whatever is behind them. -/
def Rule.Legible (name : Rule) (parts : List ParseTree) : Prop :=
  ∀ rest, name.Reads (tokensAll parts ++ rest) (slips rest (.node name parts)) rest

variable {parts mid : List ParseTree}

/-- A rule that has no other part than another rule. -/
lemma Rule.Legible.only {name other : Rule} (legible : other.Legible parts)
    (firm : name.slippery = false)
    (same : ∀ {tokens reports rest}, other.Reads tokens reports rest → name.Reads tokens reports rest) :
    name.Legible [.node other parts] := by
  intro rest
  rw [slips_firm firm, slipsAll_cons, slipsAll_nil, List.append_nil, tokensAll_cons, tokensAll_nil,
    List.append_nil]
  exact same (legible rest)

/-! ## Rows, calls and lists -/

lemma reads_chain {level : Level} {tighter : List Level} {operand : Rule}
    (operands : ∀ inner, operand.Legible inner → ∀ rest, ∃ value,
      (Phrase.operation tighter value).Reads (tokensAll inner ++ rest)
        (slips rest (.node operand inner)) rest)
    (shape : (many (inOrder [oneOf (level.operators.map token), rule operand])).Shape
      Rule.Legible parts []) :
    ∀ left rest, ∃ value, (Phrase.chain level tighter left value).Reads (tokensAll parts ++ rest)
      (slipsAll rest parts) rest := by
  induction shape using Relation.ReflTransGen.head_induction_on with
  | refl => exact fun left rest => ⟨left, .alone⟩
  | head link _ ih =>
      intro left rest
      obtain ⟨_, first, mid, ⟨inner, rfl, legible⟩, rfl⟩ := link
      obtain ⟨operator, rfl, listed⟩ := shape_oneOf_tokens _ first
      obtain ⟨right, reads⟩ := operands inner legible (tokensAll mid ++ rest)
      obtain ⟨value, others⟩ := ih (level.node left operator right) rest
      refine ⟨value, ?_⟩
      simpa using Phrase.Reads.link listed reads others

lemma reads_row (operand : Rule) (level : Level) {tighter : List Level}
    (operands : ∀ inner, operand.Legible inner → ∀ rest, ∃ value,
      (Phrase.operation tighter value).Reads (tokensAll inner ++ rest)
        (slips rest (.node operand inner)) rest)
    (shape : (row level.operators operand).Shape Rule.Legible parts []) (rest : List Token) :
    ∃ value, (Phrase.operation (level :: tighter) value).Reads (tokensAll parts ++ rest)
      (slipsAll rest parts) rest := by
  obtain ⟨mid, ⟨inner, rfl, legible⟩, _, chain, rfl⟩ := shape
  obtain ⟨left, reads⟩ := operands inner legible (tokensAll mid ++ rest)
  obtain ⟨value, others⟩ := reads_chain operands chain left rest
  refine ⟨value, ?_⟩
  simpa using Phrase.Reads.row reads others

lemma reads_calls
    (shape : (many (inOrder [token .leftParen, optional (rule .arguments),
      token .rightParen])).Shape Rule.Legible parts []) :
    ∀ callee rest, ∃ value, (Phrase.calls callee value).Reads (tokensAll parts ++ rest)
      (slipsAll rest parts) rest := by
  induction shape using Relation.ReflTransGen.head_induction_on with
  | refl => exact fun callee rest => ⟨callee, .uncalled⟩
  | head call _ ih =>
      intro callee rest
      obtain ⟨_, ⟨opening, rfl, opens⟩, _, arguments, mid, ⟨paren, rfl, closes⟩, rfl⟩ := call
      rcases arguments with rfl | ⟨inner, rfl, legible⟩
      · obtain ⟨value, others⟩ := ih (.call callee paren []) rest
        refine ⟨value, ?_⟩
        simpa using Phrase.Reads.calledBare opens closes others
      · obtain ⟨values, reads⟩ := legible (paren :: (tokensAll mid ++ rest))
        obtain ⟨value, others⟩ := ih (.call callee paren values) rest
        refine ⟨value, ?_⟩
        simpa using Phrase.Reads.called opens reads closes others

lemma reads_arguments
    (shape : (many (inOrder [token .comma, rule .expression])).Shape Rule.Legible parts []) :
    ∀ (count : Nat) {inner : List ParseTree}, Rule.expression.Legible inner → ∀ rest, ∃ values,
      (Phrase.arguments count values).Reads (tokensAll inner ++ (tokensAll parts ++ rest))
        (slipsListed .tooManyArguments count rest (.node .expression inner :: parts)) rest := by
  induction shape using Relation.ReflTransGen.head_induction_on with
  | refl =>
      intro count inner legible rest
      obtain ⟨value, reads⟩ := legible rest
      exact ⟨[value], .last reads⟩
  | head further _ ih =>
      intro count inner legible rest
      obtain ⟨_, ⟨comma, rfl, separates⟩, mid, ⟨next, rfl, nextLegible⟩, rfl⟩ := further
      obtain ⟨value, reads⟩ := legible (comma :: (tokensAll (.node .expression next :: mid) ++ rest))
      obtain ⟨values, others⟩ := ih (count + 1) nextLegible rest
      rw [← List.append_assoc] at others
      exact ⟨value :: values, .more reads separates others⟩

lemma reads_parameters
    (shape : (many (inOrder [token .comma, token .identifier])).Shape Rule.Legible parts []) :
    ∀ (count : Nat) {name : Token}, name.kind = .identifier → ∀ rest, ∃ names,
      ParametersRead count names (name :: (tokensAll parts ++ rest))
        (slipsListed .tooManyParameters count rest (.leaf name :: parts)) rest := by
  induction shape using Relation.ReflTransGen.head_induction_on with
  | refl =>
      intro count name named rest
      refine ⟨[name], ?_⟩
      simpa [slipsListed] using ParametersRead.last named
  | head further _ ih =>
      intro count name named rest
      obtain ⟨_, ⟨comma, rfl, separates⟩, _, ⟨next, rfl, nextNamed⟩, rfl⟩ := further
      obtain ⟨names, others⟩ := ih (count + 1) nextNamed rest
      refine ⟨name :: names, ?_⟩
      simpa [slipsListed] using ParametersRead.more named separates others

/-! ## Statements -/

/-- An expression that may be left out, in front of other parts. -/
lemma reads_clause (shape : (optional (rule .expression)).Shape Rule.Legible parts mid)
    (rest : List Token) :
    ∃ value reports, slipsAll rest parts = reports ++ slipsAll rest mid
      ∧ ClauseReads value (tokensAll parts ++ rest) reports (tokensAll mid ++ rest) := by
  rcases shape with rfl | ⟨inner, rfl, legible⟩
  · exact ⟨none, [], rfl, .omitted⟩
  · obtain ⟨value, reads⟩ := legible (tokensAll mid ++ rest)
    refine ⟨some value, _, rfl, ?_⟩
    rw [tokensAll_cons, List.append_assoc]
    exact .given reads

/-- Declarations in front of other parts: as many as there are parts of them. -/
lemma reads_declarations (shape : (many (rule .declaration)).Shape Rule.Legible parts mid)
    (rest : List Token) :
    ∃ stmts reports, slipsAll rest parts = reports ++ slipsAll rest mid
      ∧ parts.length = stmts.length + mid.length
      ∧ (Passage.declarations stmts).Reads (tokensAll parts ++ rest) reports
        (tokensAll mid ++ rest) := by
  induction shape using Relation.ReflTransGen.head_induction_on with
  | refl => exact ⟨[], [], rfl, by simp, .done⟩
  | @head _ next first _ ih =>
      obtain ⟨inner, rfl, legible⟩ := first
      obtain ⟨others, reports, same, count, further⟩ := ih
      obtain ⟨stmt, reads⟩ := legible (tokensAll next ++ rest)
      refine ⟨stmt :: others, slips (tokensAll next ++ rest) (.node .declaration inner) ++ reports,
        ?_, ?_, ?_⟩
      · rw [slipsAll_cons, same, List.append_assoc]
      · rw [List.length_cons, List.length_cons, count]
        omega
      · rw [tokensAll_cons, List.append_assoc]
        exact .next reads further

lemma reads_function (shape : (grammar .funDecl).Shape Rule.Legible parts []) :
    Rule.funDecl.Legible parts := by
  intro rest
  obtain ⟨_, ⟨keyword, rfl, announces⟩, _, ⟨name, rfl, named⟩, _, ⟨opening, rfl, opens⟩, _,
    parameters, _, ⟨paren, rfl, closes⟩, _, ⟨inner, rfl, legible⟩, rfl⟩ := shape
  obtain ⟨brace, tokens, body, closing, block, braced, reads, ends⟩ := legible rest
  rcases parameters with rfl | ⟨listed, rfl, legible⟩
  · have signature : SignatureReads name [] _ [] tokens := .bare named opens closes braced
    refine ⟨.function name [] body, ?_⟩
    simpa [slips, block] using Passage.Reads.function announces signature reads ends
  · obtain ⟨names, listing⟩ := legible (paren :: brace :: tokens)
    have signature := SignatureReads.listed named opens listing closes braced
    refine ⟨.function name names body, ?_⟩
    simpa [slips, block] using Passage.Reads.function announces signature reads ends

lemma reads_variable (shape : (grammar .varDecl).Shape Rule.Legible parts []) :
    Rule.varDecl.Legible parts := by
  intro rest
  obtain ⟨_, ⟨keyword, rfl, announces⟩, _, ⟨name, rfl, named⟩, _, initializer, _,
    ⟨semicolon, rfl, ends⟩, rfl⟩ := shape
  rcases initializer with rfl | ⟨_, ⟨equals, rfl, assigns⟩, _, ⟨inner, rfl, legible⟩, rfl⟩
  · exact ⟨keyword, _, _, rfl, announces, .bare named ends⟩
  · obtain ⟨value, reads⟩ := legible (semicolon :: rest)
    refine ⟨keyword, _, .variable name (some value), rfl, announces, ?_⟩
    simpa [slips] using VariableReads.initialized named assigns reads ends

lemma reads_branch (shape : (grammar .ifStmt).Shape Rule.Legible parts []) :
    Rule.ifStmt.Legible parts := by
  intro rest
  obtain ⟨_, ⟨keyword, rfl, announces⟩, _, ⟨opening, rfl, opens⟩, _, ⟨tested, rfl, testLegible⟩, _,
    ⟨closing, rfl, closes⟩, _, ⟨chosen, rfl, chosenLegible⟩, _, alternative, rfl⟩ := shape
  rcases alternative with
    rfl | ⟨_, ⟨otherwise, rfl, turns⟩, _, ⟨other, rfl, otherLegible⟩, rfl⟩
  · obtain ⟨condition, reads⟩ := testLegible (closing :: (tokensAll chosen ++ rest))
    obtain ⟨isOpen, consequent, thenReads⟩ := chosenLegible rest
    refine ⟨true, .branch condition consequent none, ?_⟩
    simpa [slips] using Passage.Reads.branch announces (.condition opens reads closes) thenReads
  · obtain ⟨condition, reads⟩ :=
      testLegible (closing :: (tokensAll chosen ++ otherwise :: (tokensAll other ++ rest)))
    obtain ⟨thenOpen, consequent, thenReads⟩ := chosenLegible (otherwise :: (tokensAll other ++ rest))
    obtain ⟨elseOpen, alternative, elseReads⟩ := otherLegible rest
    have tests := ConditionReads.condition opens reads closes
    -- the `else` goes to this `if` only when no statement in it is open
    cases thenOpen with
    | false =>
        refine ⟨elseOpen, .branch condition consequent (some alternative), ?_⟩
        simpa [slips] using Passage.Reads.branchElse announces tests thenReads turns elseReads
    | true =>
        obtain ⟨stillOpen, whole, wholeReads⟩ := thenReads.attach turns elseReads
        refine ⟨true, .branch condition whole none, ?_⟩
        simpa [slips] using Passage.Reads.branch announces tests wholeReads

/-- The first clause of a `for` loop, in front of other parts. -/
lemma reads_initializer
    (shape : (oneOf [rule .varDecl, rule .exprStmt, token .semicolon]).Shape Rule.Legible parts mid)
    (rest : List Token) :
    ∃ first reports, slipsAll rest parts = reports ++ slipsAll rest mid
      ∧ InitializerReads first (tokensAll parts ++ rest) reports (tokensAll mid ++ rest) := by
  rcases shape with ⟨inner, rfl, legible⟩ | ⟨inner, rfl, legible⟩ | ⟨mark, rfl, ends⟩ | shape
  · obtain ⟨keyword, tokens, stmt, declared, announces, reads⟩ := legible (tokensAll mid ++ rest)
    refine ⟨some stmt, _, rfl, ?_⟩
    rw [tokensAll_cons, tokens_node, List.append_assoc, declared]
    exact .declared announces reads
  · obtain ⟨value, mark, reads, ends⟩ := legible (tokensAll mid ++ rest)
    refine ⟨some (.expression value), _, rfl, ?_⟩
    rw [tokensAll_cons, tokens_node, List.append_assoc]
    exact .evaluated reads ends
  · exact ⟨none, [], rfl, .omitted ends⟩
  · exact shape.elim

lemma reads_for (shape : (grammar .forStmt).Shape Rule.Legible parts []) :
    Rule.forStmt.Legible parts := by
  intro rest
  obtain ⟨_, ⟨keyword, rfl, announces⟩, _, ⟨opening, rfl, opens⟩, _, first, _, tested, _,
    ⟨semicolon, rfl, separates⟩, _, stepped, _, ⟨closing, rfl, closes⟩, _, ⟨inner, rfl, legible⟩,
    rfl⟩ := shape
  obtain ⟨initializer, before, firstSlips, firstReads⟩ := reads_initializer first rest
  obtain ⟨condition, between, testSlips, testReads⟩ := reads_clause tested rest
  obtain ⟨increment, after, stepSlips, stepReads⟩ := reads_clause stepped rest
  obtain ⟨isOpen, body, reads⟩ := legible rest
  rw [← List.append_nil (tokensAll inner)] at reads
  refine ⟨isOpen, .forLoop initializer condition increment body, ?_⟩
  have clauses := ForReads.clauses opens firstReads testReads separates stepReads closes
  have slipped : slips rest (.node .forStmt (.leaf keyword :: .leaf opening :: _)) = _ :=
    firstSlips
  rw [slipped, testSlips, slipsAll_cons, stepSlips]
  simpa using Passage.Reads.forLoop announces clauses reads

lemma reads_statement (shape : (grammar .statement).Shape Rule.Legible parts []) :
    Rule.statement.Legible parts := by
  rcases shape with ⟨inner, rfl, legible⟩ | ⟨inner, rfl, legible⟩ | ⟨inner, rfl, legible⟩
    | ⟨inner, rfl, legible⟩ | ⟨inner, rfl, legible⟩ | ⟨inner, rfl, legible⟩ | ⟨inner, rfl, legible⟩
    | shape
  · intro rest
    obtain ⟨value, semicolon, reads, ends⟩ := legible rest
    refine ⟨false, .expression value, ?_⟩
    simpa [slips] using Passage.Reads.expression reads ends
  · exact legible.only rfl (fun reads => reads)
  · intro rest
    obtain ⟨opening, tokens, body, closing, block, opens, reads, closes⟩ := legible rest
    refine ⟨false, .block body, ?_⟩
    simpa [slips, block] using Passage.Reads.block opens reads closes
  · exact legible.only rfl (fun reads => reads)
  · exact legible.only rfl (fun reads => reads)
  · exact legible.only rfl (fun reads => reads)
  · exact legible.only rfl (fun reads => reads)
  · exact shape.elim

lemma reads_primary (shape : (grammar .primary).Shape Rule.Legible parts []) :
    Rule.primary.Legible parts := by
  intro rest
  have literal : ∀ {token : Token}, token.kind ∈ Phrase.literalKinds →
      Rule.primary.Reads (token :: rest) [] rest := by
    intro token listed
    obtain ⟨value, constant⟩ := Option.isSome_iff_exists.mp (Phrase.constant_isSome listed)
    exact ⟨.literal value, .literal constant⟩
  rcases shape with ⟨token, rfl, kind⟩ | ⟨token, rfl, kind⟩ | ⟨token, rfl, kind⟩
    | ⟨token, rfl, kind⟩ | ⟨token, rfl, kind⟩ | ⟨name, rfl, named⟩
    | ⟨_, ⟨opening, rfl, opens⟩, _, ⟨inner, rfl, legible⟩, _, ⟨closing, rfl, closes⟩, rfl⟩ | shape
  · exact literal (by simp [kind, Phrase.literalKinds])
  · exact literal (by simp [kind, Phrase.literalKinds])
  · exact literal (by simp [kind, Phrase.literalKinds])
  · exact literal (by simp [kind, Phrase.literalKinds])
  · exact literal (by simp [kind, Phrase.literalKinds])
  · exact ⟨.variable name none, .name named⟩
  · obtain ⟨value, reads⟩ := legible (closing :: rest)
    refine ⟨.group value, ?_⟩
    simpa [slips] using Phrase.Reads.group opens reads closes
  · exact shape.elim

/-- **Parts in the shape of a rule read as that rule**, with their slips, whatever is behind them. -/
theorem Rule.legible_of_shape {name : Rule} (firm : name.slippery = false)
    (shape : (grammar name).Shape Rule.Legible parts []) : name.Legible parts := by
  cases name with
  | program =>
      intro rest
      obtain ⟨_, declarations, _, ⟨mark, rfl, ends⟩, rfl⟩ := shape
      obtain ⟨stmts, reports, slipped, -, reads⟩ := reads_declarations declarations rest
      refine ⟨stmts, mark, ?_, ends⟩
      simpa [slips, slipped] using reads
  | declaration =>
      rcases shape with ⟨inner, rfl, legible⟩ | ⟨inner, rfl, legible⟩ | ⟨inner, rfl, legible⟩ | shape
      · exact legible.only rfl (fun reads => reads)
      · intro rest
        obtain ⟨keyword, tokens, stmt, declared, announces, reads⟩ := legible rest
        refine ⟨stmt, ?_⟩
        simpa [slips, declared] using Passage.Reads.variable announces reads
      · intro rest
        obtain ⟨isOpen, stmt, reads⟩ := legible rest
        refine ⟨stmt, ?_⟩
        simpa [slips] using Passage.Reads.plain reads
      · exact shape.elim
  | funDecl => exact reads_function shape
  | varDecl => exact reads_variable shape
  | statement => exact reads_statement shape
  | exprStmt =>
      intro rest
      obtain ⟨_, ⟨inner, rfl, legible⟩, _, ⟨semicolon, rfl, ends⟩, rfl⟩ := shape
      obtain ⟨value, reads⟩ := legible (semicolon :: rest)
      refine ⟨value, semicolon, ?_, ends⟩
      simpa [slips] using reads
  | printStmt =>
      intro rest
      obtain ⟨_, ⟨keyword, rfl, announces⟩, _, ⟨inner, rfl, legible⟩, _, ⟨semicolon, rfl, ends⟩,
        rfl⟩ := shape
      obtain ⟨value, reads⟩ := legible (semicolon :: rest)
      refine ⟨false, .print value, ?_⟩
      simpa [slips] using Passage.Reads.print announces reads ends
  | block =>
      intro rest
      obtain ⟨_, ⟨opening, rfl, opens⟩, _, declarations, _, ⟨closing, rfl, closes⟩, rfl⟩ := shape
      obtain ⟨body, reports, slipped, -, reads⟩ := reads_declarations declarations rest
      refine ⟨opening, _, body, closing, rfl, opens, ?_, closes⟩
      simpa [slips, slipped] using reads
  | ifStmt => exact reads_branch shape
  | whileStmt =>
      intro rest
      obtain ⟨_, ⟨keyword, rfl, announces⟩, _, ⟨opening, rfl, opens⟩, _, ⟨tested, rfl, testLegible⟩,
        _, ⟨closing, rfl, closes⟩, _, ⟨inner, rfl, legible⟩, rfl⟩ := shape
      obtain ⟨condition, reads⟩ := testLegible (closing :: (tokensAll inner ++ rest))
      obtain ⟨isOpen, body, bodyReads⟩ := legible rest
      refine ⟨isOpen, .loop condition body, ?_⟩
      simpa [slips] using Passage.Reads.loop announces (.condition opens reads closes) bodyReads
  | forStmt => exact reads_for shape
  | returnStmt =>
      intro rest
      obtain ⟨_, ⟨keyword, rfl, announces⟩, _, given, _, ⟨semicolon, rfl, ends⟩, rfl⟩ := shape
      obtain ⟨value, reports, slipped, reads⟩ := reads_clause given rest
      refine ⟨false, .return_ keyword value, ?_⟩
      simpa [slips, slipped] using Passage.Reads.return_ announces reads ends
  | parameters | «arguments» | assignment => cases firm
  | expression =>
      obtain ⟨inner, rfl, legible⟩ := shape
      exact legible.only rfl (fun reads => reads)
  | logicOr => exact reads_row .logicAnd ⟨[.keyword .or], .logical⟩ (fun _ legible => legible) shape
  | logicAnd => exact reads_row .equality ⟨[.keyword .and], .logical⟩ (fun _ legible => legible) shape
  | equality =>
      exact reads_row .comparison ⟨[.bangEqual, .equalEqual], .binary⟩ (fun _ legible => legible) shape
  | comparison =>
      exact reads_row .term ⟨[.greater, .greaterEqual, .less, .lessEqual], .binary⟩
        (fun _ legible => legible) shape
  | term => exact reads_row .factor ⟨[.minus, .plus], .binary⟩ (fun _ legible => legible) shape
  | factor =>
      refine reads_row .unary ⟨[.slash, .star], .binary⟩ ?_ shape
      intro inner legible rest
      obtain ⟨value, reads⟩ := legible rest
      exact ⟨value, .operand reads⟩
  | unary =>
      rcases shape with ⟨_, sign, _, ⟨inner, rfl, legible⟩, rfl⟩ | ⟨inner, rfl, legible⟩ | shape
      · intro rest
        obtain ⟨operator, rfl, listed⟩ := shape_oneOf_tokens [.bang, .minus] sign
        obtain ⟨operand, reads⟩ := legible rest
        refine ⟨.unary operator operand, ?_⟩
        simpa [slips] using Phrase.Reads.sign listed reads
      · exact legible.only rfl (fun reads => reads)
      · exact shape.elim
  | call =>
      intro rest
      obtain ⟨further, ⟨inner, rfl, legible⟩, _, calls, rfl⟩ := shape
      obtain ⟨callee, reads⟩ := legible (tokensAll further ++ rest)
      obtain ⟨value, others⟩ := reads_calls calls callee rest
      refine ⟨value, ?_⟩
      simpa [slips] using Phrase.Reads.callee reads others
  | primary => exact reads_primary shape

end LoxLang
