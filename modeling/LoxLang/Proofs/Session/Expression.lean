import Mathlib
import LoxLang.Proofs.Session.Diagnostics
import LoxLang.Proofs.Session.Joined

/-!
# Evaluating an expression and printing it

An expression can be evaluated on its own, or as the operand of a `print` in a program.  On its own it
is read up to the end of the text and its names are never bound; in the program it is read up to a
semicolon, and the statement is bound, checked and executed.  Outside of all blocks no name is kept, so
it is the same expression on the same lines, and it does the same.

* `Program.printing` — the program that prints an expression.
* `Scan.items_printing`, `Program.parse_printing`, `Program.accepts_printing` — its tokens, its tree,
  and that nothing is wrong with it.
* `Session.run_printing` — it runs as the expression is evaluated, and prints the value behind.
* **`Session.evaluate_printed`** — evaluating an expression and printing it do the same.
-/

namespace LoxLang

/-- The program that prints the value of an expression. -/
def Program.printing (source : String) : String := "print " ++ source ++ "\n;"

/-! ## The program -/

namespace Scan

lemma tokens_cons (token : Token) (items : List Item) :
    tokens (.ok token :: items) = token :: tokens items := rfl

lemma faults_cons (token : Token) (items : List Item) :
    faults (.ok token :: items) = faults items := rfl

/-- The items of a semicolon at the end of a text. -/
lemma itemsFrom_semicolon (line : Nat) :
    itemsFrom line [';'] = [.ok ⟨.semicolon, ";", none, line⟩, .ok (.endMark line)] := by
  have cut : Segment.split ';' [] = (.token .semicolon [';'] none, []) := rfl
  rw [itemsFrom_of_split cut, itemsFrom]
  rfl

/-- The keyword and the blank in front of a text. -/
lemma itemsFrom_print (line : Nat) (text : List Char) :
    itemsFrom line ("print ".toList ++ text) =
      .ok ⟨.keyword .print, "print", none, line⟩ :: itemsFrom line text := by
  have cut : Segment.split 'p' ("rint ".toList ++ text) =
      (.token (.keyword .print) "print".toList none, ' ' :: text) := rfl
  have text' : "print ".toList ++ text = 'p' :: ("rint ".toList ++ text) := rfl
  rw [text', itemsFrom_of_split cut, itemsFrom_of_split (Segment.split_blank text (.inl rfl))]
  rfl

/-- A text without lexical errors keeps its tokens, and their lines, behind `print` and in front of a
semicolon on a line of its own. -/
lemma items_printing {source : String} (sound : faults (items source) = []) :
    ∃ tokens : List Token, (∀ token ∈ tokens, token.kind ≠ .endOfInput) ∧
      items source = tokens.map .ok ++ [.ok (.endMark (lines source))] ∧
      items (Program.printing source) =
        .ok ⟨.keyword .print, "print", none, 1⟩ :: (tokens.map .ok ++
          [.ok ⟨.semicolon, ";", none, lines source + 1⟩, .ok (.endMark (lines source + 1))]) := by
  obtain ⟨tokens, inner, whole, joined⟩ := exists_tokens sound
  have count : 1 + source.toList.count '\n' = lines source := by rw [lines, Nat.add_comm]
  rw [count] at whole joined
  refine ⟨tokens, inner, whole, ?_⟩
  have text : (Program.printing source).toList =
      "print ".toList ++ (source.toList ++ '\n' :: [';']) := by
    simp [Program.printing]
  rw [items, text, itemsFrom_print, joined, itemsFrom_semicolon]

end Scan

namespace Program

/-- **An expression reads the same between `print` and a semicolon.** -/
lemma parse_printing {tokens : List Token} (inner : ∀ token ∈ tokens, token.kind ≠ .endOfInput)
    {mark print semicolon last : Token} {value : Expr} (isMark : mark.kind = .endOfInput)
    (isPrint : print.kind = .keyword .print) (isSemicolon : semicolon.kind = .semicolon)
    (isLast : last.kind = .endOfInput)
    (read : parseExpression (tokens ++ [mark]) = ⟨some value, []⟩) :
    parse (print :: (tokens ++ [semicolon, last])) = ⟨[.print value], []⟩ := by
  rw [parseExpression_eq_iff, beforeEnd_append inner isMark] at read
  have ahead := @Expr.Reads.revised .same [semicolon] _ _ _ rfl _ read
  have lines : Revision.same.line = id := rfl
  rw [Revision.front, Revision.front, Token.map_revised_eq_self lines,
    value.revised_eq_self lines fun _ _ => rfl] at ahead
  have inside : ∀ token ∈ print :: (tokens ++ [semicolon]), token.kind ≠ .endOfInput :=
    List.forall_mem_cons.mpr ⟨by simp [isPrint],
      List.forall_mem_append.mpr ⟨inner, by simp [isSemicolon]⟩⟩
  have whole : print :: (tokens ++ [semicolon, last]) =
      print :: (tokens ++ [semicolon]) ++ [last] := by simp
  rw [whole, parse_eq_iff, beforeEnd_append inside isLast]
  exact .next (.plain (.print isPrint ahead isSemicolon)) .done

/-- An expression read without problems has no lexical errors, and its tokens are read without
reports. -/
lemma readExpression_eq_iff {source : String} {value : Expr} :
    readExpression source = (some value, []) ↔ Scan.faults (Scan.items source) = [] ∧
      parseExpression (Scan.tokens (Scan.items source)) = ⟨some value, []⟩ := by
  simp only [readExpression, told]
  rcases parseExpression (Scan.tokens (Scan.items source)) with ⟨tree, reports⟩
  simp only [Prod.mk.injEq, List.append_eq_nil_iff, List.map_eq_nil_iff, Parsed.mk.injEq]
  tauto

/-- Where nothing is wrong with an expression, nothing is wrong with the program that prints it. -/
theorem accepts_printing {source : String} {value : Expr}
    (read : readExpression source = (some value, [])) :
    Accepts (printing source) [.print value] := by
  rw [readExpression_eq_iff] at read
  obtain ⟨sound, parsed⟩ := read
  obtain ⟨tokens, inner, whole, printed⟩ := Scan.items_printing sound
  rw [whole, (Scan.tokens_append_map tokens _).1] at parsed
  constructor
  · rw [read_eq_iff, printed, Scan.faults_cons, Scan.tokens_cons, (Scan.tokens_append_map tokens _).1,
      (Scan.tokens_append_map tokens _).2]
    exact ⟨rfl, parse_printing inner rfl rfl rfl rfl parsed⟩
  · have silent : value.mistakes none = [] :=
      (value.mistakes_eq_nil_iff none).mpr fun _ _ _ none_ => Option.some_ne_none _ none_.symm
    simp only [mistakes, Stmt.mistakesAll, Stmt.mistakes, silent, List.append_nil]

end Program

/-! ## Its run -/

mutual

/-- Outside of all blocks an expression is bound to itself. -/
lemma Expr.bound_globals : ∀ value : Expr, value.bound [] = value
  | .literal _ => rfl
  | .group inner => by rw [Expr.bound, Expr.bound_globals inner]
  | .unary _ operand => by rw [Expr.bound, Expr.bound_globals operand]
  | .binary left _ right => by
      rw [Expr.bound, Expr.bound_globals left, Expr.bound_globals right]
  | .logical left _ right => by
      rw [Expr.bound, Expr.bound_globals left, Expr.bound_globals right]
  | .variable _ _ => rfl
  | .assign name value hops => by
      rw [Expr.bound, Expr.bound_globals value]
      rfl
  | .call callee _ arguments => by
      rw [Expr.bound, Expr.bound_globals callee, Expr.boundAll_globals arguments]

lemma Expr.boundAll_globals : ∀ values : List Expr, Expr.boundAll [] values = values
  | [] => rfl
  | first :: others => by
      rw [Expr.boundAll, Expr.bound_globals first, Expr.boundAll_globals others]

end

namespace Action

lemma evaluate_sameHost {machine : Machine} (unhosted : machine.Unhosted) (n : Nat)
    (value : Expr) : (evaluate n value machine).SameHost machine := by
  have host := ((Tabled.revised id .same n).evaluate value machine unhosted).2
  rwa [show Revision.same.hops = id from rfl, Function.comp_id,
    Tabled.evaluate_untabled] at host

variable {n : Nat} {value : Expr} {given : Value} {machine after : Machine} {fault : Fault}

/-- With a sink in memory every line can be printed. -/
lemma executeAll_print_done (found : evaluate n value machine = .done given after)
    (direct : after.sink.IsDirect) : executeAll (n + 2) [.print value] machine =
      .done .normal
        { after with sink := .direct (after.sink.arrived.write (given.shown ++ "\n").toUTF8) } := by
  obtain ⟨arrived, same⟩ := direct
  simp only [executeAll, execute, bind, Action.bind, found, print, same, Sink.write, Sink.arrived]
  rfl

lemma executeAll_print_failed (found : evaluate n value machine = .failed fault after) :
    executeAll (n + 2) [.print value] machine = .failed fault after := by
  simp only [executeAll, execute, bind, Action.bind, found]

lemma executeAll_print_exhausted (found : evaluate n value machine = .exhausted) :
    executeAll (n + 2) [.print value] machine = .exhausted := by
  simp only [executeAll, execute, bind, Action.bind, found]

end Action

namespace Session

/-- A session with a sink in memory that has printed one more line. -/
def printed (session : Session) (line : String) : Session :=
  let arrived := session.machine.sink.arrived.write (line ++ "\n").toUTF8
  { session with machine := { session.machine with sink := .direct arrived } }

/-- What becomes of an evaluation whose value is printed. -/
def afterPrint : Except Status Value × Session → Status × Session
  | (.ok value, after) => (.completed, after.printed value.shown)
  | (.error status, after) => (status, after)

/-- **The program evaluates the expression and prints its value**, for a little more allowance. -/
theorem run_printing {session : Session} {source : String}
    (sound : (Program.readExpression source).2 = []) (unhosted : session.machine.Unhosted)
    (direct : session.machine.sink.IsDirect) (n : Nat) :
    session.run (n + 2) (Program.printing source) =
      (session.evaluate n source).map afterPrint := by
  obtain ⟨value, read⟩ := Program.exists_expression sound
  have bound : Program.bound [.print value] = [.print value] := by
    simp only [Program.bound, Stmt.boundAll, Stmt.bound, value.bound_globals]
  rw [run_of_accepts (Program.accepts_printing read), bound, evaluate_accepted n session read]
  have host := Action.evaluate_sameHost unhosted n value
  cases found : Action.evaluate n value session.machine with
  | done given after =>
      rw [found] at host
      rw [Action.executeAll_print_done found (host.direct direct), concluded,
        Outcome.flushed, Machine.flush_direct ⟨_, rfl⟩]
      rfl
  | failed fault after =>
      rw [found] at host
      rw [Action.executeAll_print_failed found, concluded, Outcome.flushed,
        Machine.flush_direct (host.direct direct)]
      rfl
  | exhausted =>
      rw [Action.executeAll_print_exhausted found]
      rfl

/-- What the program comes to is what the evaluation comes to. -/
lemma run_printing_iff {session : Session} {source : String}
    (sound : (Program.readExpression source).2 = []) (unhosted : session.machine.Unhosted)
    (direct : session.machine.sink.IsDirect) (told : Status × Session) :
    (∃ n, session.run n (Program.printing source) = some told) ↔
      ∃ n found, session.evaluate n source = some found ∧ afterPrint found = told := by
  constructor
  · rintro ⟨n, ran⟩
    obtain ⟨value, read⟩ := Program.exists_expression sound
    match n with
    | 0 => rw [run_of_accepts (Program.accepts_printing read)] at ran; cases ran
    | 1 => rw [run_of_accepts (Program.accepts_printing read)] at ran; cases ran
    | n + 2 =>
        rw [run_printing sound unhosted direct] at ran
        exact ⟨n, Option.map_eq_some_iff.mp ran⟩
  · rintro ⟨n, found, evaluated, rfl⟩
    exact ⟨n + 2, by rw [run_printing sound unhosted direct, evaluated]; rfl⟩

/-- **Evaluating an expression and printing it do the same.**  In any state of a session with a sink in
memory, for a text that is read as one expression without problems: nothing is wrong with the program
that prints it.  It completes exactly if the evaluation yields a value, and has then printed the value
on a line behind what the evaluation printed, and all else is the same.  It is stopped exactly if the
evaluation is, and then everything is the same, what was printed and what is reported on which line
included. -/
theorem evaluate_printed {buffer : Buffer} {clock : Nat → Float} {requests : Nat → Request}
    {step : Nat} {origins : List Position} {session : Session} {source : String}
    (reached : Reaches (.start (.direct buffer) clock) requests step origins session)
    (sound : (Program.readExpression source).2 = []) :
    (Compilation.ofSource ("print " ++ source ++ "\n;")).problems = [] ∧
      (∀ value after, (∃ n, session.evaluate n source = some (.ok value, after)) →
        ∃ n, session.run n ("print " ++ source ++ "\n;") =
          some (.completed, after.printed value.shown)) ∧
      (∀ joint, (∃ n, session.run n ("print " ++ source ++ "\n;") = some (.completed, joint)) →
        ∃ value after, (∃ n, session.evaluate n source = some (.ok value, after)) ∧
          joint = after.printed value.shown) ∧
      ∀ after, (∃ n, session.evaluate n source = some (.error .runtimeError, after)) ↔
        ∃ n, session.run n ("print " ++ source ++ "\n;") = some (.runtimeError, after) := by
  have host := reached.sameHost (Machine.unhosted_start _ clock)
  have same := run_printing_iff sound (host.unhosted (Machine.unhosted_start _ clock))
    (host.direct ⟨buffer, rfl⟩)
  obtain ⟨value, read⟩ := Program.exists_expression sound
  refine ⟨by rw [← Program.printing, (Program.accepts_printing read).ofSource],
    fun value after ⟨n, found⟩ => (same _).mpr ⟨n, _, found, rfl⟩, fun joint ran => ?_,
    fun after => ⟨fun ⟨n, found⟩ => (same _).mpr ⟨n, _, found, rfl⟩, fun ran => ?_⟩⟩
  · obtain ⟨n, ⟨_ | value, after⟩, found, ends⟩ := (same _).mp ran
    · rw [evaluate_accepted n session read] at found
      cases outcome : Action.evaluate n value session.machine <;> rw [outcome] at found <;>
        cases found
      cases ends
    · exact ⟨value, after, ⟨n, found⟩, (Prod.mk.inj ends).2.symm⟩
  · obtain ⟨n, ⟨_ | value, after⟩, found, ends⟩ := (same _).mp ran
    · cases ends
      exact ⟨n, found⟩
    · cases ends

/-- A function that prints before it returns, called by an expression with a comment at its end. -/
theorem evaluate_printed_call :
    let declared := "fun f() \x7b print nil; return true; \x7d"
    let source := "!f() // a remark"
    ∃ origins session value after, Reaches (.start (.direct .empty) fun _ => 0)
        (fun _ => .run declared) 1 origins session ∧ (Program.readExpression source).2 = [] ∧
      (∃ n, session.evaluate n source = some (.ok value, after)) ∧
      ∃ n, session.run n ("print " ++ source ++ "\n;") =
        some (.completed, after.printed value.shown) := by
  intro declared source
  have sound : (Program.readExpression source).2 = [] := by
    rw [← List.isEmpty_iff]
    simp only [source]
    decide +kernel
  have statuses : ((start (.direct .empty) fun _ => 0).run 20 declared).bind (fun told =>
      (told.2.evaluate 20 source).map fun found => found.1.isOk) = some true := by
    simp only [declared, source]
    decide +kernel
  clear_value declared source
  obtain ⟨⟨status, session⟩, ran, rest⟩ := Option.bind_eq_some_iff.mp statuses
  obtain ⟨⟨_ | value, after⟩, found, isOk⟩ := Option.map_eq_some_iff.mp rest
  · cases isOk
  have reached : Reaches (.start (.direct .empty) fun _ => 0) (fun _ => .run declared) 1 _ session :=
    .answer .start (by rw [answer, ← start, ran]; rfl)
  exact ⟨_, session, value, after, reached, sound, ⟨20, found⟩,
    (evaluate_printed reached sound).2.1 value after ⟨20, found⟩⟩

end Session

end LoxLang
