import LoxLang.Proofs.Grammar.Complete
import LoxLang.Proofs.Grammar.Derivable
import LoxLang.Proofs.Grammar.Slips
import LoxLang.Proofs.Grammar.Sound
import Mathlib

/-!
# The language that is read

The parser accepts the tokens that derive from the grammar, and no others.

* **`Rule.legible_of_grammar`** — what derives from a rule of the language reads as that rule.
* **`Rule.firm_of_grammar`** — it has no slip in it, and so reads without a report.
* **`Program.parse_eq_iff`**, **`Program.parseExpression_eq_iff`** — a whole input without a report is
  a reading of all its tokens.
* **`Program.accepts_iff`** — an input is accepted exactly if it derives from the grammar.
-/

namespace LoxLang

open Form ParseTree

variable {parts mid : List ParseTree}

/-! ## Derivations without slips -/

/-- **Parts in the shape of a rule of the language read as that rule**, with their slips. -/
theorem Rule.legible_of_grammar (name : Rule) (parts : List ParseTree)
    (shape : (grammar name).Shape Rule.Legible parts []) : name.Legible parts := by
  cases slips : name.slippery with
  | false => exact legible_of_shape slips shape
  | true =>
    intro rest
    cases name with
    | assignment =>
        rcases shape with ⟨_, ⟨target, rfl, named⟩, _, ⟨equals, rfl, assigns⟩, _,
          ⟨inner, rfl, legible⟩, rfl⟩ | ⟨inner, rfl, legible⟩ | shape
        · obtain ⟨value, reads⟩ := legible rest
          refine ⟨.assign target value none, ?_⟩
          simpa [ParseTree.slips, invalidTarget, named] using
            Phrase.Reads.assign (.of_name named Level.all) assigns reads
        · obtain ⟨value, reads⟩ := legible rest
          refine ⟨value, ?_⟩
          simpa [ParseTree.slips, invalidTarget] using Phrase.Reads.plain reads
        · exact shape.elim
    | parameters =>
        obtain ⟨_, ⟨first, rfl, named⟩, _, others, rfl⟩ := shape
        exact reads_parameters others.reflTransGen 0 named rest
    | «arguments» =>
        obtain ⟨others, ⟨first, rfl, legible⟩, _, further, rfl⟩ := shape
        rw [tokensAll_cons, List.append_assoc]
        exact reads_arguments further.reflTransGen 0 legible rest
    | _ => cases slips

/-- The parts of a rule have no slip in them. -/
def Rule.Firm (name : Rule) (parts : List ParseTree) : Prop :=
  ∀ behind, slips behind (.node name parts) = []

/-- Where no rule has a slip in it, there are only those of the parts behind. -/
lemma Form.firm_of_shape (form : Form) : ∀ {parts mid : List ParseTree},
    form.Shape Rule.Firm parts mid → ∀ behind, slipsAll behind parts = slipsAll behind mid := by
  induction form with
  | token kind =>
      rintro _ mid ⟨token, rfl, -⟩ behind
      rw [slipsAll_cons, slips_leaf, List.nil_append]
  | rule name =>
      rintro _ mid ⟨inner, rfl, firm⟩ behind
      rw [slipsAll_cons, firm, List.nil_append]
  | never => exact fun shape => shape.elim
  | nothing =>
      rintro parts mid rfl behind
      rfl
  | both first second ihfirst ihsecond =>
      rintro parts mid ⟨between, front, back⟩ behind
      rw [ihfirst front, ihsecond back]
  | either left right ihleft ihright =>
      rintro parts mid (shape | shape) behind
      · exact ihleft shape behind
      · exact ihright shape behind
  | many form ih =>
      intro parts mid shapes behind
      induction shapes using Relation.ReflTransGen.head_induction_on with
      | refl => rfl
      | head first _ others => rw [ih first, others]
  | upTo most form ih =>
      intro parts mid shapes behind
      induction shapes with
      | none => rfl
      | more first _ others => rw [ih first, others]

/-- A list within its limit has no slip in it. -/
lemma slipsListed_eq_nil {form : Form} {error : SyntaxError} {most : Nat}
    (single : ∀ {parts mid : List ParseTree}, form.Shape Rule.Firm parts mid →
      ∃ element, parts = element :: mid ∧ ∀ behind, slips behind element = [])
    (shape : Repeats ((inOrder [token .comma, form]).Shape Rule.Firm) most parts mid)
    (ended : mid = []) :
    ∀ {count : Nat} {first : ParseTree}, count + most < maxArguments →
      (∀ behind, slips behind first = []) →
      ∀ behind, slipsListed error count behind (first :: parts) = [] := by
  induction shape with
  | none =>
      intro count first few firm behind
      subst ended
      rw [slipsListed, overfull_of_lt (by omega), firm, List.nil_append]
  | more further _ ih =>
      intro count first few firm behind
      obtain ⟨_, ⟨comma, rfl, -⟩, _, next, rfl⟩ := further
      obtain ⟨element, rfl, nextFirm⟩ := single next
      rw [slipsListed, overfull_of_lt (by omega), firm, ih ended (by omega) nextFirm]
      rfl

/-- **No rule of the language has a slip in it.** -/
theorem Rule.firm_of_grammar (name : Rule) (parts : List ParseTree)
    (shape : (grammar name).Shape Rule.Firm parts []) : name.Firm parts := by
  intro behind
  have inner := (grammar name).firm_of_shape shape
  cases slips : name.slippery with
  | false => rw [slips_firm slips, inner, slipsAll_nil]
  | true =>
    cases name with
    | assignment =>
        rw [ParseTree.slips, inner]
        rcases shape with ⟨_, ⟨target, rfl, named⟩, _, ⟨equals, rfl, -⟩, _, ⟨value, rfl, -⟩, rfl⟩
          | ⟨inner, rfl, -⟩ | shape
        · simp [invalidTarget, named]
        · rfl
        · exact shape.elim
    | parameters =>
        obtain ⟨_, ⟨first, rfl, -⟩, _, others, rfl⟩ := shape
        refine slipsListed_eq_nil ?_ others rfl (by decide) (fun _ => rfl) behind
        rintro parts mid ⟨name, rfl, -⟩
        exact ⟨_, rfl, fun _ => rfl⟩
    | «arguments» =>
        obtain ⟨_, ⟨first, rfl, firm⟩, _, others, rfl⟩ := shape
        refine slipsListed_eq_nil ?_ others rfl (by decide) firm behind
        rintro parts mid ⟨inner, rfl, firm⟩
        exact ⟨_, rfl, firm⟩
    | _ => cases slips

/-- Declarations that derive from the grammar read as statements, without a report. -/
lemma reads_of_declarations {tokens : List Token}
    (derived : Derives grammar (many (rule .declaration)) tokens) :
    ∃ stmts, (Passage.declarations stmts).Reads tokens [] [] := by
  obtain ⟨parts, built, rfl⟩ := derived.builds
  have shape := built.shape Rule.legible_of_grammar []
  have firm := Form.firm_of_shape _ (built.shape Rule.firm_of_grammar []) []
  rw [List.append_nil] at shape firm
  obtain ⟨stmts, reports, slipped, -, reads⟩ := reads_declarations shape []
  rw [firm, slipsAll_nil, List.append_nil] at slipped
  rw [← slipped] at reads
  exact ⟨stmts, by simpa using reads⟩

/-- An expression that derives from the grammar reads as one, without a report. -/
lemma reads_of_expression {tokens : List Token}
    (derived : Derives grammar (rule .expression) tokens) :
    ∃ value : Expr, value.Reads tokens [] [] := by
  obtain ⟨_, built, rfl⟩ := derived.builds
  obtain ⟨inner, same, legible⟩ := built.shape Rule.legible_of_grammar []
  obtain ⟨_, same', firm⟩ := built.shape Rule.firm_of_grammar []
  rw [List.append_nil] at same same'
  subst same
  cases same'
  obtain ⟨value, reads⟩ := legible []
  rw [firm] at reads
  exact ⟨value, by simpa using reads⟩

/-! ## Whole inputs -/

namespace Program

open LoxLang.Parser

/-- What all tokens before the end read as is the outcome, with all that is reported on the way. -/
lemma parse_of_reads {tokens : List Token} {stmts : List Stmt} {reports : List SyntaxReport}
    (reads : (Passage.declarations stmts).Reads (beforeEnd tokens) reports []) :
    parse tokens = ⟨stmts, reports⟩ := by
  have gives : Gives (declarations (allowance (beforeEnd tokens)) none) (beforeEnd tokens) reports
      [] stmts := by
    refine reads.found none ⟨Or.inl rfl, by simp⟩ _ ?_
    rw [allowance]
    omega
  rw [Gives] at gives
  rw [parse, gives]

/-- **A program is read without a report exactly if all its tokens read as its statements.** -/
theorem parse_eq_iff {tokens : List Token} {stmts : List Stmt} :
    parse tokens = ⟨stmts, []⟩ ↔ (Passage.declarations stmts).Reads (beforeEnd tokens) [] [] := by
  constructor
  · intro h
    rw [parse] at h
    rcases step : declarations (allowance (beforeEnd tokens)) none (beforeEnd tokens)
      with ⟨reports, rest, outcome⟩
    rw [step] at h
    cases outcome with
    | error error => simp at h
    | ok given =>
        cases h
        have gives : Gives (declarations (allowance (beforeEnd tokens)) none) (beforeEnd tokens) []
          rest stmts := step
        have length : (beforeEnd tokens).length < allowance (beforeEnd tokens) := by
          rw [allowance]
          omega
        obtain rfl := declarations_exhausts _ gives length
        exact (soundStatements _).declarations gives
  · exact parse_of_reads

/-- **An expression is read without a report exactly if all tokens read as it.** -/
theorem parseExpression_eq_iff {tokens : List Token} {value : Expr} :
    parseExpression tokens = ⟨some value, []⟩ ↔ value.Reads (beforeEnd tokens) [] [] := by
  constructor
  · intro h
    rw [parseExpression] at h
    rcases step : expression (beforeEnd tokens) with ⟨reports, rest, outcome⟩
    rw [step] at h
    cases outcome with
    | error error => simp at h
    | ok given =>
        cases rest with
        | nil =>
            cases h
            exact sound_expression step
        | cons token behind => simp at h
  · intro h
    have gives := h.found (by simp)
    rw [Gives] at gives
    rw [parseExpression, gives]

lemma isEnd_iff {token : Token} : token.isEnd = true ↔ token.kind = .endOfInput := by
  rw [Token.isEnd, beq_iff_eq]

lemma endMark_kind (tokens : List Token) : (endMark tokens).kind = .endOfInput := by
  rw [endMark]
  cases found : tokens.find? Token.isEnd with
  | none => rfl
  | some token => exact isEnd_iff.mp (List.find?_some found)

/-- What derives from a program is declarations with an end mark behind them. -/
lemma exists_mark {table : Rule → Form} (same : table .program = grammar .program)
    {tokens : List Token} (derived : Derives table (.rule .program) tokens) :
    ∃ front mark, tokens = front ++ [mark] ∧ mark.kind = .endOfInput
      ∧ Derives table (.many (.rule .declaration)) front := by
  cases derived with
  | rule derived =>
    rw [same] at derived
    cases derived with
    | both declarations ended =>
      cases ended with
      | both mark behind =>
        cases mark with
        | token kind =>
          cases behind
          exact ⟨_, _, rfl, kind, declarations⟩

lemma derives_program {table : Rule → Form} (same : table .program = grammar .program)
    {tokens : List Token} {mark : Token} (markKind : mark.kind = .endOfInput) :
    Derives table (.rule .program) (tokens ++ [mark])
      ↔ Derives table (.many (.rule .declaration)) tokens := by
  constructor
  · intro h
    obtain ⟨front, other, all, -, many⟩ := exists_mark same h
    obtain ⟨rfl, -⟩ := List.append_inj' all rfl
    exact many
  · intro h
    have declarations : Derivable table (.many (.rule .declaration)) _ [mark] := ⟨_, rfl, h⟩
    have program : Derivable table (.rule .program) (tokens ++ [mark]) [] := by
      refine .rule ?_
      rw [same]
      exact .followed declarations (.followed (.token markKind) .ended)
    exact program.derives

/-- The statements of a program are found without a report exactly if the tokens derive from any
number of declarations. -/
lemma parse_silent_iff {tokens : List Token} :
    (parse tokens).reports = []
      ↔ Derives grammar (.many (.rule .declaration)) (beforeEnd tokens) := by
  constructor
  · intro h
    have parsed : parse tokens = ⟨(parse tokens).tree, []⟩ := by rw [← h]
    exact ((parse_eq_iff.mp parsed).derivable rfl).derives
  · intro h
    obtain ⟨stmts, read⟩ := reads_of_declarations h
    rw [parse_eq_iff.mpr read]

lemma parseExpression_silent_iff {tokens : List Token} :
    ((parseExpression tokens).tree.isSome ∧ (parseExpression tokens).reports = [])
      ↔ Derives grammar (.rule .expression) (beforeEnd tokens) := by
  constructor
  · rintro ⟨some_, reports⟩
    obtain ⟨value, found⟩ := Option.isSome_iff_exists.mp some_
    have parse : parseExpression tokens = ⟨some value, []⟩ := by rw [← found, ← reports]
    exact (parseExpression_eq_iff.mp parse).derivable.derives
  · intro h
    obtain ⟨value, found⟩ := reads_of_expression h
    rw [parseExpression_eq_iff.mpr found]
    exact ⟨rfl, rfl⟩

/-- **What is accepted is what derives from the grammar.**  A program is read without a report exactly
if its tokens, up to the first end mark and with it, derive from `program`; a single expression is
found without a report exactly if the tokens before that mark derive from `expression`. -/
theorem accepts_iff (tokens : List Token) :
    ((parse tokens).reports = []
        ↔ Derives grammar (.rule .program) (beforeEnd tokens ++ [endMark tokens]))
      ∧ ((parseExpression tokens).tree.isSome ∧ (parseExpression tokens).reports = []
        ↔ Derives grammar (.rule .expression) (beforeEnd tokens)) := by
  constructor
  · rw [parse_silent_iff, derives_program rfl (endMark_kind tokens)]
  · exact parseExpression_silent_iff

end Program

end LoxLang
