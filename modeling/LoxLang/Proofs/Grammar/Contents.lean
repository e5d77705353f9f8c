import LoxLang.Proofs.Grammar.Restored
import Mathlib

/-!
# A tree holds what its tokens hold

Parentheses, marks and most words only give a tree its form; names, operators, literals and `return`
go into it.  A tree that is read holds those of its tokens, each as often as it stands there.  A `for`
loop is no exception, although its parts change places and some of its marks are made up: what is
made up is a mark or a word.

* `heldKinds`, `held` — the tokens that go into a tree, as a multiset.
* **`Passage.Reads.held`** — the tokens that are taken hold what the trees hold.
-/

namespace LoxLang

/-- The kinds of tokens that go into a tree. -/
def heldKinds : List Kind := .number :: .string :: keptKinds

/-- The tokens that go into a tree, up to what the tree keeps of them. -/
def held (tokens : List Token) : Multiset Token :=
  (tokens.map Token.plain).filter (·.kind ∈ heldKinds)

/-! ## Marks hold nothing -/

@[simp] lemma Token.plain_kind (token : Token) : token.plain.kind = token.kind := by
  unfold Token.plain
  split
  · rfl
  · split <;> rfl

@[simp] lemma held_nil : held [] = 0 := rfl

@[simp] lemma held_append (front back : List Token) :
    held (front ++ back) = held front + held back := by
  rw [held, List.map_append, List.filter_append, ← Multiset.coe_add]
  rfl

lemma held_cons (token : Token) (rest : List Token) : held (token :: rest) = held [token] + held rest :=
  held_append [token] rest

lemma held_singleton_of_not_mem {token : Token} (formal : token.kind ∉ heldKinds) :
    held [token] = 0 := by
  simp [held, formal]

/-- A mark holds nothing. -/
@[simp] lemma held_mark_cons {kind : Kind} (formal : kind ∉ heldKinds) (rest : List Token) :
    held (kind.mark :: rest) = held rest := by
  rw [held_cons, held_singleton_of_not_mem (by exact formal), zero_add]

/-- A token that only gives the tree its form holds nothing. -/
lemma held_formal {token : Token} {kind : Kind} (found : token.kind = kind) (formal : kind ∉ heldKinds)
    (rest : List Token) : held (token :: rest) = held rest := by
  subst found
  rw [held_cons, held_singleton_of_not_mem formal, zero_add]

/-- Tokens that trees do not tell apart hold the same. -/
lemma Alike.held_eq {left right : List Token} (alike : Alike left right) : held left = held right := by
  rw [held, held, alike]

/-- What is held comes from one of the tokens. -/
lemma exists_of_mem_held {token : Token} {tokens : List Token} (mem : token ∈ held tokens) :
    ∃ given ∈ tokens, given.plain = token ∧ given.kind ∈ heldKinds := by
  obtain ⟨plain, kind⟩ := List.mem_filter.mp (Multiset.mem_coe.mp mem)
  obtain ⟨given, taken, rfl⟩ := List.mem_map.mp plain
  exact ⟨given, taken, rfl, by simpa using kind⟩

/-- A token that goes into a tree is held. -/
lemma mem_held {token : Token} {tokens : List Token} (mem : token ∈ tokens)
    (kind : token.kind ∈ heldKinds) : token.plain ∈ held tokens :=
  Multiset.mem_coe.mpr (List.mem_filter.mpr ⟨List.mem_map_of_mem mem, by simpa using kind⟩)

/-! ## Loops -/

/-- The tokens of a statement that may be left out. -/
def Stmt.written? : Option Stmt → List Token
  | none => []
  | some stmt => stmt.written

/-- What is kept for a `for` loop holds what its clauses and its body hold. -/
lemma held_forLoop (initializer : Option Stmt) (condition increment : Option Expr) (body : Stmt) :
    held (Stmt.forLoop initializer condition increment body).written =
      held (Stmt.written? initializer) + held (Expr.written? condition) +
        held (Expr.written? increment) + held body.written := by
  have always : held (Expr.literal (.bool true)).written = 0 :=
    held_singleton_of_not_mem (by decide)
  rcases initializer with _ | first <;> rcases condition with _ | value <;>
    rcases increment with _ | step
  all_goals
    simp +decide only [Stmt.forLoop, Stmt.written, Stmt.writtenAll, Stmt.written?, Expr.written?,
      Option.getD, held_mark_cons, held_append, held_nil, always, List.cons_append, List.append_assoc,
      List.nil_append]
    abel

section Parts

variable {tokens rest : List Token} {reports : List SyntaxReport}

lemma InitializerReads.held {first : Option Stmt} (reads : InitializerReads first tokens [] rest)
    (carry : AllCarry tokens) : held tokens = held (Stmt.written? first) + held rest := by
  cases reads with
  | omitted semicolon =>
      rw [held_formal semicolon (by decide), Stmt.written?, held_nil, zero_add]
  | declared keyword stmt =>
      rw [(stmt.restored keyword carry.tail).held_eq, held_append, Stmt.written?]
  | evaluated value semicolon =>
      rw [(value.restored carry).held_eq, held_append, held_formal semicolon (by decide),
        Stmt.written?, Stmt.written, held_append, held_mark_cons (by decide), held_nil, add_zero]

lemma ForReads.held {initializer : Option Stmt} {condition increment : Option Expr}
    (reads : ForReads initializer condition increment tokens reports rest) :
    reports = [] → AllCarry tokens → held tokens =
      held (Stmt.written? initializer) + held (Expr.written? condition) +
        held (Expr.written? increment) + held rest := by
  cases reads with
  | clauses opening initializerReads conditionReads semicolon incrementReads closing =>
      intro silent carry
      obtain ⟨rfl, parts⟩ := List.append_eq_nil_iff.mp silent
      obtain ⟨rfl, rfl⟩ := List.append_eq_nil_iff.mp parts
      have mid := carry.tail.suffix initializerReads.suffix
      have far := (mid.suffix conditionReads.suffix).tail
      rw [held_formal opening (by decide), initializerReads.held carry.tail,
        (conditionReads.restored mid).held_eq, held_append, held_formal semicolon (by decide),
        (incrementReads.restored far).held_eq, held_append, held_formal closing (by decide)]
      abel

lemma ConditionReads.held {value : Expr} (reads : ConditionReads value tokens [] rest)
    (carry : AllCarry tokens) : held tokens = held value.written + held rest := by
  rw [(reads.restored carry).held_eq, held_mark_cons (by decide), held_append,
    held_mark_cons (by decide)]

end Parts

/-! ## Programs -/

namespace Passage

variable {passage : Passage} {tokens rest : List Token} {reports : List SyntaxReport}

/-- The tokens of the trees of a passage. -/
def written : Passage → List Token
  | declaration stmt => stmt.written
  | statement _ stmt => stmt.written
  | declarations stmts => Stmt.writtenAll stmts

/-- **The tokens of a passage hold what its trees hold**, `for` loops included. -/
theorem Reads.held (reads : passage.Reads tokens reports rest) : reports = [] → AllCarry tokens →
    held tokens = held passage.written + held rest := by
  induction reads with
  | @function _ name names _ _ _ _ rest _ _ keywordKind signature _ closing ih =>
      intro silent carry
      obtain ⟨rfl, rfl⟩ := List.append_eq_nil_iff.mp silent
      have body := ih rfl (carry.tail.suffix signature.suffix)
      rw [held_formal keywordKind (by decide), signature.restored.held_eq, held_cons]
      simp +decide only [written, Stmt.written, held_mark_cons, held_append, body,
        held_formal closing]
      rw [held_cons name (Kind.leftParen.mark :: _)]
      simp +decide only [held_mark_cons, held_append, held_nil]
      abel
  | «variable» keywordKind stmt =>
      rintro rfl carry
      rw [(stmt.restored keywordKind carry.tail).held_eq, held_append]
      rfl
  | plain _ ih => exact ih
  | expression value semicolon =>
      rintro rfl carry
      rw [(value.restored carry).held_eq, held_append, held_formal semicolon (by decide)]
      simp +decide only [written, Stmt.written, held_mark_cons, held_append, held_nil, add_zero]
  | print keywordKind value semicolon =>
      rintro rfl carry
      rw [held_formal keywordKind (by decide), (value.restored carry.tail).held_eq, held_append,
        held_formal semicolon (by decide)]
      simp +decide only [written, Stmt.written, held_mark_cons, held_append, held_nil, add_zero]
  | @return_ keyword _ _ _ _ _ _ value semicolon =>
      rintro rfl carry
      rw [held_cons, (value.restored carry.tail).held_eq, held_append,
        held_formal semicolon (by decide), written, Stmt.written, held_cons keyword (_ ++ _)]
      simp +decide only [held_mark_cons, held_append, held_nil, add_zero]
      abel
  | block opening _ closing ih =>
      rintro rfl carry
      rw [held_formal opening (by decide), ih rfl carry.tail, held_formal closing (by decide)]
      simp +decide only [written, Stmt.written, held_mark_cons, held_append, held_nil, add_zero]
  | loop keywordKind condition _ ih =>
      intro silent carry
      obtain ⟨rfl, rfl⟩ := List.append_eq_nil_iff.mp silent
      have body := ih rfl (carry.tail.suffix condition.suffix)
      rw [held_formal keywordKind (by decide), condition.held carry.tail, body]
      simp +decide only [written, Stmt.written, held_mark_cons, held_append]
      abel
  | forLoop keywordKind clauses _ ih =>
      intro silent carry
      obtain ⟨rfl, rfl⟩ := List.append_eq_nil_iff.mp silent
      have body := ih rfl (carry.tail.suffix clauses.suffix)
      rw [held_formal keywordKind (by decide), clauses.held rfl carry.tail, body]
      simp only [written, held_forLoop]
      abel
  | branch keywordKind condition _ ih =>
      intro silent carry
      obtain ⟨rfl, rfl⟩ := List.append_eq_nil_iff.mp silent
      have held_ := ih rfl (carry.tail.suffix condition.suffix)
      rw [held_formal keywordKind (by decide), condition.held carry.tail, held_]
      simp +decide only [written, Stmt.written, Stmt.writtenElse, held_mark_cons, held_append,
        held_nil]
      abel
  | branchElse keywordKind condition consequent otherwise _ ihconsequent ihalternative =>
      intro silent carry
      obtain ⟨rfl, parts⟩ := List.append_eq_nil_iff.mp silent
      obtain ⟨rfl, rfl⟩ := List.append_eq_nil_iff.mp parts
      have mid := carry.tail.suffix condition.suffix
      have far := (mid.suffix consequent.opens.suffix).tail
      rw [held_formal keywordKind (by decide), condition.held carry.tail, ihconsequent rfl mid,
        held_formal otherwise (by decide), ihalternative rfl far]
      simp +decide only [written, Stmt.written, Stmt.writtenElse, held_mark_cons, held_append]
      abel
  | done => exact fun _ _ => (zero_add _).symm
  | next first _ ihfirst ihothers =>
      intro silent carry
      obtain ⟨rfl, rfl⟩ := List.append_eq_nil_iff.mp silent
      have others := ihothers rfl (carry.suffix first.opens.suffix)
      rw [ihfirst rfl carry, others]
      simp only [written, Stmt.writtenAll, held_append]
      abel

end Passage

end LoxLang
