import LoxLang.Proofs.Grammar.Language
import LoxLang.Proofs.Grammar.Reread
import LoxLang.Proofs.Grammar.Restored
import LoxLang.Token.Scan
import Mathlib

/-!
# Reading and writing out

Reading undoes writing out, and writing out undoes reading.

* `Program.beforeEnd_written` — the tokens of shaped trees are all in front of the end.
* **`Program.parse_written`** — shaped trees are read again from their tokens, and the trees of tokens
  that are read without a report are shaped and have those tokens.
-/

namespace LoxLang

namespace Program

lemma beforeEnd_append {tokens : List Token} {mark : Token}
    (unended : ∀ token ∈ tokens, token.kind ≠ .endOfInput) (markKind : mark.kind = .endOfInput) :
    beforeEnd (tokens ++ [mark]) = tokens := by
  have inner : ∀ token ∈ tokens, (!token.isEnd) = true := by
    intro token listed
    rw [Bool.not_eq_true', Bool.eq_false_iff]
    exact fun ended => unended token listed (isEnd_iff.mp ended)
  rw [beforeEnd, List.takeWhile_append_of_pos inner]
  simp [isEnd_iff.mpr markKind]

/-- The tokens of shaped trees are what stands before the end mark behind them. -/
lemma beforeEnd_written {stmts : List Stmt} {mark : Token} (shaped : Stmt.ShapedAll stmts)
    (markKind : mark.kind = .endOfInput) :
    beforeEnd (Stmt.writtenAll stmts ++ [mark]) = Stmt.writtenAll stmts := by
  have reads := Stmt.rereadsAll stmts shaped []
  rw [List.append_nil] at reads
  have derives : Derives grammar (.many (.rule .declaration)) (Stmt.writtenAll stmts) :=
    (reads.derivable rfl).derives
  exact beforeEnd_append (derives.inner (fun _ => grammar_inner) trivial) markKind

/-- The statements that the tokens of shaped trees are read as, with an end mark behind them. -/
lemma parse_of_written {stmts : List Stmt} {mark : Token} (shaped : Stmt.ShapedAll stmts)
    (markKind : mark.kind = .endOfInput) : parse (Stmt.writtenAll stmts ++ [mark]) = ⟨stmts, []⟩ := by
  have reads := Stmt.rereadsAll stmts shaped []
  rw [List.append_nil] at reads
  rw [parse_eq_iff, beforeEnd_written shaped markKind]
  exact reads

/-- The readings of tokens that are read without a report. -/
lemma reads_of_silent {tokens : List Token} (found : (parse tokens).reports = []) :
    (Passage.declarations (parse tokens).tree).Reads (beforeEnd tokens) [] [] := by
  have parsed : parse tokens = ⟨(parse tokens).tree, []⟩ := by rw [← found]
  exact parse_eq_iff.mp parsed

/-- **Reading undoes writing out, and writing out undoes reading.**  Shaped trees are read again from
their tokens, without a report.  The trees of tokens that are read without a report are shaped, and
unless a `for` is among the tokens, the tokens of the trees are those that were read. -/
theorem parse_written :
    (∀ (stmts : List Stmt) (mark : Token), Stmt.ShapedAll stmts → mark.kind = .endOfInput →
        parse (Stmt.writtenAll stmts ++ [mark]) = ⟨stmts, []⟩)
      ∧ ∀ tokens : List Token, (parse tokens).reports = [] →
        Stmt.ShapedAll (parse tokens).tree
          ∧ (Restorable (beforeEnd tokens) →
              Alike (beforeEnd tokens) (Stmt.writtenAll (parse tokens).tree)) := by
  refine ⟨fun stmts mark shaped markKind => parse_of_written shaped markKind, fun tokens silent => ?_⟩
  have reads := reads_of_silent silent
  refine ⟨reads.shaped rfl, fun unended => ?_⟩
  have restored := reads.restored rfl unended
  rw [Passage.Restores, List.append_nil] at restored
  exact restored

/-- A branch that calls a function is read again from its tokens, and written as it was read. -/
theorem parse_written_branch :
    let f : Expr := .variable ⟨.identifier, "f", none, 1⟩ none
    let tested : Expr := .logical f (Kind.keyword .or).mark (.unary Kind.minus.mark f)
    let stmts : List Stmt :=
      [.branch tested (.print f) (some (.expression (.call f Kind.rightParen.mark [f])))]
    let tokens : List Token := Scan.tokens (Scan.items "if (f or -f) print f; else f(f);")
    Stmt.ShapedAll stmts
      ∧ parse (Stmt.writtenAll stmts ++ [.endMark 1]) = ⟨stmts, []⟩
      ∧ (parse tokens).reports = [] ∧ Restorable (beforeEnd tokens)
      ∧ Alike (beforeEnd tokens) (Stmt.writtenAll (parse tokens).tree) := by
  intro f tested stmts tokens
  have shaped : Stmt.ShapedAll stmts := by
    simp [stmts, tested, f, Stmt.ShapedAll, Stmt.Shaped, Stmt.ShapedElse, Expr.Shaped,
      Expr.ShapedAll, Stmt.isDeclaration, Stmt.isOpen, Expr.rank, Kind.precedence, maxArguments]
  have unended : tokens = Stmt.writtenAll stmts ++ [.endMark 1] := by
    simp only [tokens, stmts, tested, f]
    cbv
  have parsed : parse (Stmt.writtenAll stmts ++ [.endMark 1]) = ⟨stmts, []⟩ :=
    parse_written.1 stmts (.endMark 1) shaped rfl
  have restorable : Restorable (beforeEnd tokens) := by
    rw [unended, beforeEnd_written shaped rfl]
    simp [stmts, tested, f, Restorable, Token.Carries, Stmt.writtenAll, Stmt.written,
      Stmt.writtenElse, Expr.written, Expr.writtenAll, Expr.writtenMore]
  have silent : (parse tokens).reports = [] := by rw [unended, parsed]
  exact ⟨shaped, parsed, silent, restorable, (parse_written.2 tokens silent).2 restorable⟩

end Program

end LoxLang
