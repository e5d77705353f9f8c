import LoxLang.Proofs.Grammar.Recover

/-!
# The rules of the grammar by index

Every rule by index is in step with the rule of the parser, given enough steps.  A rule that ends with
a value has read a token, unless it continues one that did; so a rule that is called again finds fewer
tokens left, and what it needs is at most the steps for these.  The rules that call each other before
the next token is read are told apart by the few steps on top of that.

* `Indexed.InStepExpressions`, `Indexed.InStepStatements` — the rules with `m` steps, as one statement
  for the induction on `m`.
* **`Indexed.inStepExpressions`**, **`Indexed.inStepStatements`** — they hold for every number of steps.
-/

namespace LoxLang

open Program (beforeEnd endIndex tokenAt drop_eq_cons drop_endIndex)

namespace Indexed

variable {tokens : List Token} {start m n : Nat}

/-! ## Expressions -/

/-- With enough steps on both sides, the functions for expressions stay in step and read a token.
Sixteen steps for each token left are enough, and a few more for the rules that call each other before
the next one is read. -/
structure InStepExpressions (tokens : List Token) (m : Nat) : Prop where
  assignment : ∀ n start, 16 * (endIndex tokens - start) + 10 ≤ min m n →
    Realizes tokens start (reader.assignment m) (Parser.assignment n) fun _ stop => start < stop
  operation : ∀ n levels start, levels.length ≤ 6 →
    16 * (endIndex tokens - start) + 3 + levels.length ≤ min m n →
    Realizes tokens start (reader.operation m levels) (Parser.operation n levels)
      fun _ stop => start < stop
  chain : ∀ n level tighter left start, tighter.length ≤ 6 →
    16 * (endIndex tokens - start) + 1 ≤ min m n →
    Realizes tokens start (reader.chain m level tighter left) (Parser.chain n level tighter left)
      fun _ stop => start ≤ stop
  unary : ∀ n start, 16 * (endIndex tokens - start) + 2 ≤ min m n →
    Realizes tokens start (reader.unary m) (Parser.unary n) fun _ stop => start < stop
  calls : ∀ n callee start, 16 * (endIndex tokens - start) + 1 ≤ min m n →
    Realizes tokens start (reader.calls m callee) (Parser.calls n callee)
      fun _ stop => start ≤ stop
  arguments : ∀ n count start, 16 * (endIndex tokens - start) + 11 ≤ min m n →
    Realizes tokens start (reader.arguments m count) (Parser.arguments n count)
      fun _ stop => start < stop
  primary : ∀ n start, 16 * (endIndex tokens - start) + 1 ≤ min m n →
    Realizes tokens start (reader.primary m) (Parser.primary n) fun _ stop => start < stop

namespace InStepExpressions

variable (ended : ∃ token ∈ tokens, token.isEnd)

include ended

lemma assignment_succ (ih : InStepExpressions tokens m)
    (steps : 16 * (endIndex tokens - start) + 10 ≤ min (m + 1) (n + 1)) :
    Realizes tokens start (reader.assignment (m + 1)) (Parser.assignment (n + 1))
      fun _ stop => start < stop := by
  have rows : Level.all.length = 6 := rfl
  refine (ih.operation n Level.all start rows.le (by omega)).bind fun target middle past _ _ => ?_
  refine .ahead (.branch (realizes_accept ended .equal) (.pure past) fun equals seen _ => ?_)
  subst seen
  refine (ih.assignment n (middle + 1) (by omega)).bind fun value stop past' _ _ => ?_
  have told : Realizes tokens stop
      (do report .invalidTarget (tokenAt tokens middle); return target)
      (do Parser.report .invalidTarget ((beforeEnd tokens).drop middle); return target)
      (fun _ last => start < last) :=
    (realizes_report .invalidTarget middle).bind fun _ last same _ _ => .pure (by omega)
  cases target with
  | «variable» name hops => exact .pure (by omega)
  | _ => exact told

omit ended in
lemma operation_succ (ih : InStepExpressions tokens m) (levels : List Level)
    (rows : levels.length ≤ 6)
    (steps : 16 * (endIndex tokens - start) + 3 + levels.length ≤ min (m + 1) (n + 1)) :
    Realizes tokens start (reader.operation (m + 1) levels) (Parser.operation (n + 1) levels)
      fun _ stop => start < stop := by
  cases levels with
  | nil => exact ih.unary n start (by omega)
  | cons level tighter =>
      rw [List.length_cons] at rows steps
      refine (ih.operation n tighter start (by omega) (by omega)).bind fun left middle past _ _ => ?_
      exact (ih.chain n level tighter left middle (by omega) (by omega)).mono
        fun _ stop later => past.trans_le later

lemma chain_succ (ih : InStepExpressions tokens m) (level : Level) (tighter : List Level)
    (left : Expr) (rows : tighter.length ≤ 6)
    (steps : 16 * (endIndex tokens - start) + 1 ≤ min (m + 1) (n + 1)) :
    Realizes tokens start (reader.chain (m + 1) level tighter left)
      (Parser.chain (n + 1) level tighter left) fun _ stop => start ≤ stop := by
  refine .branch (realizes_acceptAny ended level.operators) (.pure le_rfl) fun operator _ inside => ?_
  refine (ih.operation n tighter (start + 1) rows (by omega)).bind fun right middle past _ _ => ?_
  exact (ih.chain n level tighter _ middle rows (by omega)).mono fun _ stop later => by omega

lemma unary_succ (ih : InStepExpressions tokens m)
    (steps : 16 * (endIndex tokens - start) + 2 ≤ min (m + 1) (n + 1)) :
    Realizes tokens start (reader.unary (m + 1)) (Parser.unary (n + 1))
      fun _ stop => start < stop := by
  refine .branch (realizes_acceptAny ended [.bang, .minus]) ?_ fun operator _ inside => ?_
  · refine (ih.primary n start (by omega)).bind fun callee middle past _ _ => ?_
    exact (ih.calls n callee middle (by omega)).mono fun _ stop later => past.trans_le later
  · exact (ih.unary n (start + 1) (by omega)).bind fun operand stop past _ _ => .pure (by omega)

lemma calls_succ (ih : InStepExpressions tokens m) (callee : Expr)
    (steps : 16 * (endIndex tokens - start) + 1 ≤ min (m + 1) (n + 1)) :
    Realizes tokens start (reader.calls (m + 1) callee) (Parser.calls (n + 1) callee)
      fun _ stop => start ≤ stop := by
  have close (values : List Expr) (middle : Nat) (past : start < middle)
      (within : middle ≤ endIndex tokens) : Realizes tokens middle
      (do
        let paren ← expect .rightParen .closeParenAfterArguments
        reader.calls m (.call callee paren values))
      (do
        let paren ← Parser.expect .rightParen .closeParenAfterArguments
        Parser.calls n (.call callee paren values)) fun _ stop => start ≤ stop := by
    refine (realizes_expect ended _ _).bind fun paren last same _ _ => ?_
    exact (ih.calls n _ last (by omega)).mono fun _ stop later => by omega
  refine .branch (realizes_accept ended .leftParen) (.pure le_rfl) fun _ _ inside => ?_
  refine (realizes_check ended .rightParen).bind fun closed middle same _ within => ?_
  subst same
  cases closed with
  | true => exact close [] (start + 1) (Nat.lt_succ_self start) inside
  | false =>
      exact (ih.arguments n 0 (start + 1) (by omega)).bind fun values last past _ within =>
        close values last (by omega) within

lemma arguments_succ (ih : InStepExpressions tokens m) (count : Nat)
    (steps : 16 * (endIndex tokens - start) + 11 ≤ min (m + 1) (n + 1)) :
    Realizes tokens start (reader.arguments (m + 1) count) (Parser.arguments (n + 1) count)
      fun _ stop => start < stop := by
  refine .ahead (.guarded (realizes_tell ended .tooManyArguments) ?_)
  refine (ih.assignment n start (by omega)).bind fun first middle past _ _ => ?_
  refine .branch (realizes_accept ended .comma) (.pure past) fun _ _ inside => ?_
  exact (ih.arguments n (count + 1) (middle + 1) (by omega)).bind fun others stop later _ _ =>
    .pure (by omega)

lemma primary_succ (ih : InStepExpressions tokens m)
    (steps : 16 * (endIndex tokens - start) + 1 ≤ min (m + 1) (n + 1)) :
    Realizes tokens start (reader.primary (m + 1)) (Parser.primary (n + 1))
      fun _ stop => start < stop := by
  refine .branch (realizes_constant ended) ?_ fun value _ _ => .pure (Nat.lt_succ_self start)
  refine .branch (realizes_accept ended .identifier) ?_ fun name _ _ => .pure (Nat.lt_succ_self start)
  refine .branch (realizes_accept ended .leftParen) (realizes_raise ended _) fun _ _ inside => ?_
  refine (ih.assignment n (start + 1) (by omega)).bind fun inner middle past _ _ => ?_
  exact (realizes_expect ended _ _).bind fun _ stop same _ _ => .pure (by omega)

end InStepExpressions

lemma inStepExpressions (ended : ∃ token ∈ tokens, token.isEnd) (m : Nat) :
    InStepExpressions tokens m := by
  induction m with
  | zero => constructor <;> (intros; omega)
  | succ m ih =>
      constructor
      case assignment =>
        rintro (_ | n) start steps
        · omega
        · exact ih.assignment_succ ended steps
      case operation =>
        rintro (_ | n) levels start rows steps
        · omega
        · exact ih.operation_succ levels rows steps
      case chain =>
        rintro (_ | n) level tighter left start rows steps
        · omega
        · exact ih.chain_succ ended level tighter left rows steps
      case unary =>
        rintro (_ | n) start steps
        · omega
        · exact ih.unary_succ ended steps
      case calls =>
        rintro (_ | n) callee start steps
        · omega
        · exact ih.calls_succ ended callee steps
      case arguments =>
        rintro (_ | n) count start steps
        · omega
        · exact ih.arguments_succ ended count steps
      case primary =>
        rintro (_ | n) start steps
        · omega
        · exact ih.primary_succ ended steps

section Statements

variable (ended : ∃ token ∈ tokens, token.isEnd)

include ended

lemma realizes_expression (steps : 16 * (endIndex tokens - start) + 10 ≤ m) :
    Realizes tokens start (reader.assignment m) Parser.expression fun _ stop => start < stop := by
  intro within
  refine (inStepExpressions ended m).assignment _ start ?_ within
  have left : ((beforeEnd tokens).drop start).length = endIndex tokens - start := List.length_drop
  rw [Parser.allowance, left]
  omega

/-! ## Parts of statements -/

lemma realizes_clause (closing : Kind) (steps : 16 * (endIndex tokens - start) + 10 ≤ m) :
    Realizes tokens start (reader.clause (reader.assignment m) closing) (Parser.clause closing)
      fun _ stop => start ≤ stop := by
  refine (realizes_check ended closing).bind fun absent middle same _ _ => ?_
  subst same
  cases absent with
  | true => exact .pure le_rfl
  | false => exact (realizes_expression ended steps).map fun _ _ past => past.le

lemma realizes_variableDeclaration (steps : 16 * (endIndex tokens - start) + 10 ≤ m) :
    Realizes tokens start (reader.variableDeclaration (reader.assignment m) Stmt.variable)
      Parser.variableDeclaration fun _ stop => start < stop := by
  have close (name : Token) (initializer : Option Expr) (middle : Nat) (past : start < middle) :
      Realizes tokens middle
        (do
          let _ ← expect .semicolon .semicolonAfterVariable
          return Stmt.variable name initializer)
        (do
          let _ ← Parser.expect .semicolon .semicolonAfterVariable
          return Stmt.variable name initializer) fun _ stop => start < stop :=
    (realizes_expect ended _ _).bind fun _ stop same _ _ => .pure (by omega)
  refine (realizes_expect ended _ _).bind fun name middle same _ _ => ?_
  refine .branch (realizes_accept ended .equal) (close name none middle (by omega)) fun _ _ _ => ?_
  have given : Realizes tokens (middle + 1) (some <$> reader.assignment m) (some <$> Parser.expression)
      fun _ stop => middle + 1 < stop :=
    (realizes_expression ended (by omega)).map fun _ _ past => past
  exact given.bind fun initializer stop past _ _ => close name initializer stop (by omega)

lemma realizes_valueStatement (what : Expectation) (make : Expr → Stmt)
    (steps : 16 * (endIndex tokens - start) + 10 ≤ m) :
    Realizes tokens start (reader.valueStatement (reader.assignment m) what make)
      (Parser.reader.valueStatement Parser.expression what make) fun _ stop => start < stop :=
  (realizes_expression ended steps).bind fun _ middle past _ _ =>
    (realizes_expect ended _ _).bind fun _ stop same _ _ => .pure (by omega)

lemma realizes_returnStatement (keyword : Token)
    (steps : 16 * (endIndex tokens - start) + 10 ≤ m) :
    Realizes tokens start (reader.returnStatement (reader.assignment m) (Stmt.return_ keyword))
      (Parser.returnStatement keyword) fun _ stop => start < stop :=
  (realizes_clause ended _ steps).bind fun _ middle past _ _ =>
    (realizes_expect ended _ _).bind fun _ stop same _ _ => .pure (by omega)

lemma realizes_condition (opening closing : Expectation)
    (steps : 16 * (endIndex tokens - start) + 10 ≤ m) :
    Realizes tokens start (reader.condition (reader.assignment m) opening closing)
      (Parser.condition opening closing) fun _ stop => start < stop :=
  (realizes_expect ended _ _).bind fun _ first same _ _ =>
    (realizes_expression ended (by omega)).bind fun _ middle past _ _ =>
      (realizes_expect ended _ _).bind fun _ stop same _ _ => .pure (by omega)

lemma realizes_parameters (m n count start : Nat)
    (steps : endIndex tokens - start + 1 ≤ min m n) :
    Realizes tokens start (reader.parameters m count) (Parser.parameters n count)
      fun _ stop => start < stop := by
  induction m generalizing n count start with
  | zero => omega
  | succ m ih =>
      cases n with
      | zero => omega
      | succ n =>
          refine .ahead (.guarded (realizes_tell ended .tooManyParameters) ?_)
          refine (realizes_expect ended _ _).bind fun first middle same _ _ => ?_
          refine .branch (realizes_accept ended .comma) (.pure (by omega)) fun _ _ inside => ?_
          exact (ih n (count + 1) (middle + 1) (by omega)).bind fun others stop later _ _ =>
            .pure (by omega)

lemma realizes_allParameters (steps : endIndex tokens - start + 1 ≤ m) :
    Realizes tokens start (reader.parameters m 0)
      (fun rest => Parser.parameters (Parser.allowance rest) 0 rest) fun _ stop => start < stop := by
  intro within
  refine realizes_parameters ended m _ 0 start ?_ within
  have left : ((beforeEnd tokens).drop start).length = endIndex tokens - start := List.length_drop
  rw [Parser.allowance, left]
  omega

lemma realizes_signature (steps : 16 * (endIndex tokens - start) + 10 ≤ m) :
    Realizes tokens start (assembly.signature m) Parser.signature fun _ stop => start < stop := by
  have close (name : Token) (names : List Token) (middle : Nat) (past : start < middle) :
      Realizes tokens middle
        (do
          let _ ← expect .rightParen .closeParenAfterParameters
          let _ ← expect .leftBrace .openBraceOfFunction
          return (name, names))
        (do
          let _ ← Parser.expect .rightParen .closeParenAfterParameters
          let _ ← Parser.expect .leftBrace .openBraceOfFunction
          return (name, names)) fun _ stop => start < stop :=
    (realizes_expect ended _ _).bind fun _ first same _ _ =>
      (realizes_expect ended _ _).bind fun _ stop same' _ _ => .pure (by omega)
  refine (realizes_expect ended _ _).bind fun name first same _ _ => ?_
  refine (realizes_expect ended _ _).bind fun _ middle same' _ _ => ?_
  refine (realizes_check ended .rightParen).bind fun closed here unmoved _ _ => ?_
  subst unmoved
  cases closed with
  | true => exact close name [] here (by omega)
  | false =>
      exact (realizes_allParameters ended (by omega)).bind fun names last past _ _ =>
        close name names last (by omega)

lemma realizes_forInitializer (steps : 16 * (endIndex tokens - start) + 10 ≤ m) :
    Realizes tokens start
      (reader.forInitializer (reader.assignment m) Stmt.variable Stmt.expression) Parser.forInitializer
      fun _ stop => start < stop := by
  refine .branch (realizes_accept ended .semicolon) ?_ fun _ _ _ => .pure (Nat.lt_succ_self start)
  refine .branch (realizes_accept ended (.keyword .var)) ?_ fun _ _ _ => ?_
  · exact (realizes_valueStatement ended _ _ steps).map fun _ _ past => past
  · exact (realizes_variableDeclaration ended (by omega)).map fun _ _ past => by omega

lemma realizes_forClauses (steps : 16 * (endIndex tokens - start) + 10 ≤ m) :
    Realizes tokens start (assembly.forClauses m) Parser.forClauses fun _ stop => start < stop := by
  refine (realizes_expect ended _ _).bind fun _ opened same _ _ => ?_
  refine (realizes_forInitializer ended (by omega)).bind fun initializer first past _ _ => ?_
  refine (realizes_clause ended _ (by omega)).bind fun condition second later _ _ => ?_
  refine (realizes_expect ended _ _).bind fun _ third same' _ _ => ?_
  refine (realizes_clause ended _ (by omega)).bind fun increment last later' _ _ => ?_
  exact (realizes_expect ended _ _).bind fun _ stop same'' _ _ => .pure (by omega)

lemma passes_stops (inside : start < endIndex tokens) (closing : Option Kind) :
    Passes tokens start (stops closing) (decide (closing = some (tokenAt tokens start).kind))
      start := by
  have before := passes_isAtEnd ended inside.le
  rw [decide_eq_false inside.ne] at before
  cases closing with
  | none => exact before
  | some kind =>
      have looked := passes_check ended inside.le kind
      rw [drop_eq_cons inside, List.head?_cons, Option.any_some] at looked
      refine looked.bind ?_
      by_cases here : (tokenAt tokens start).kind = kind
      · rw [beq_iff_eq.mpr here, decide_eq_true (congrArg some here.symm)]
        exact .pure inside.le true
      · rw [beq_eq_false_iff_ne.mpr here,
          decide_eq_false fun same => here (Option.some.inj same).symm]
        exact before

lemma passes_stops_end (closing : Option Kind) :
    Passes tokens (endIndex tokens) (stops closing) true (endIndex tokens) := by
  have atEnd := passes_isAtEnd ended (le_refl (endIndex tokens))
  rw [decide_eq_true rfl] at atEnd
  cases closing with
  | none => exact atEnd
  | some kind =>
      refine (passes_check ended le_rfl kind).bind ?_
      rw [drop_endIndex]
      exact atEnd

end Statements

/-! ## Statements -/

/-- With enough steps on both sides, the functions for statements stay in step.  Four steps for each
token left are enough for the parser, which counts the steps of expressions on their own. -/
structure InStepStatements (tokens : List Token) (m : Nat) : Prop where
  declaration : ∀ n start, start < endIndex tokens → 16 * (endIndex tokens - start) + 12 ≤ m →
    4 * (endIndex tokens - start) + 2 ≤ n →
    Realizes tokens start (assembly.declaration m) (Parser.declaration n) fun _ stop => start < stop
  statement : ∀ n start, 16 * (endIndex tokens - start) + 11 ≤ m →
    4 * (endIndex tokens - start) + 1 ≤ n →
    Realizes tokens start (assembly.statement m) (Parser.statement n) fun _ stop => start < stop
  block : ∀ n start, 16 * (endIndex tokens - start) + 14 ≤ m →
    4 * (endIndex tokens - start) + 4 ≤ n →
    Realizes tokens start (assembly.block m) (Parser.block n) fun _ stop => start < stop
  declarations : ∀ n closing start, 16 * (endIndex tokens - start) + 13 ≤ m →
    4 * (endIndex tokens - start) + 3 ≤ n →
    Realizes tokens start (assembly.declarations m closing) (Parser.declarations n closing)
      fun _ stop => start ≤ stop

namespace InStepStatements

variable (ended : ∃ token ∈ tokens, token.isEnd)

include ended

lemma declaration_succ (ih : InStepStatements tokens m) (inside : start < endIndex tokens)
    (steps : 16 * (endIndex tokens - start) + 12 ≤ m + 1)
    (allowed : 4 * (endIndex tokens - start) + 2 ≤ n + 1) :
    Realizes tokens start (assembly.declaration (m + 1)) (Parser.declaration (n + 1))
      fun _ stop => start < stop := by
  refine realizes_declaring (.looking (passes_peek ended) ?_)
  refine realizes_recovering ended inside (by omega) ?_
  refine .branch (realizes_accept ended (.keyword .fun_)) ?_ fun _ _ _ => ?_
  · refine .branch (realizes_accept ended (.keyword .var)) ?_ fun _ _ _ => ?_
    · exact ih.statement n start (by omega) (by omega)
    · exact (realizes_variableDeclaration ended (by omega)).mono fun _ _ past => by omega
  · refine (realizes_signature ended (by omega)).bind fun heading middle past _ _ => ?_
    exact (ih.block n middle (by omega) (by omega)).bind fun body stop past' _ _ =>
      .pure (by omega)

lemma statement_succ (ih : InStepStatements tokens m)
    (steps : 16 * (endIndex tokens - start) + 11 ≤ m + 1)
    (allowed : 4 * (endIndex tokens - start) + 1 ≤ n + 1) :
    Realizes tokens start (assembly.statement (m + 1)) (Parser.statement (n + 1))
      fun _ stop => start < stop := by
  refine .branch (realizes_opening ended) (realizes_valueStatement ended _ _ (by omega))
    fun opening _ inside => ?_
  cases opening with
  | forLoop =>
      refine (realizes_forClauses ended (by omega)).bind fun clauses middle past _ _ => ?_
      exact (ih.statement n middle (by omega) (by omega)).bind fun body stop past' _ _ =>
        .pure (by omega)
  | branch =>
      refine (realizes_condition ended _ _ (by omega)).bind fun condition first past _ _ => ?_
      refine (ih.statement n first (by omega) (by omega)).bind fun consequent middle past' _ _ => ?_
      refine .branch (realizes_accept ended (.keyword .else_)) (.pure (by omega)) fun _ _ _ => ?_
      exact (ih.statement n (middle + 1) (by omega) (by omega)).bind fun alternative stop later _ _ =>
        .pure (by omega)
  | loop =>
      refine (realizes_condition ended _ _ (by omega)).bind fun condition middle past _ _ => ?_
      exact (ih.statement n middle (by omega) (by omega)).bind fun body stop past' _ _ =>
        .pure (by omega)
  | return_ keyword =>
      exact (realizes_returnStatement ended keyword (by omega)).mono fun _ _ past => by omega
  | print => exact (realizes_valueStatement ended _ _ (by omega)).mono fun _ _ past => by omega
  | block =>
      exact (ih.block n (start + 1) (by omega) (by omega)).bind fun body stop past _ _ =>
        .pure (by omega)

lemma block_succ (ih : InStepStatements tokens m)
    (steps : 16 * (endIndex tokens - start) + 14 ≤ m + 1)
    (allowed : 4 * (endIndex tokens - start) + 4 ≤ n + 1) :
    Realizes tokens start (assembly.block (m + 1)) (Parser.block (n + 1))
      fun _ stop => start < stop :=
  (ih.declarations n (some .rightBrace) start (by omega) (by omega)).bind fun body middle past _ _ =>
    (realizes_expect ended _ _).bind fun _ stop same _ _ => .pure (by omega)

lemma declarations_succ (ih : InStepStatements tokens m) (closing : Option Kind)
    (steps : 16 * (endIndex tokens - start) + 13 ≤ m + 1)
    (allowed : 4 * (endIndex tokens - start) + 3 ≤ n + 1) :
    Realizes tokens start (assembly.declarations (m + 1) closing)
      (Parser.declarations (n + 1) closing) fun _ stop => start ≤ stop := by
  intro within
  rcases Nat.lt_or_eq_of_le within with inside | rfl
  · refine Realizes.looking (fun _ => passes_stops ended inside closing) (.ahead ?_) within
    rw [drop_eq_cons inside]
    dsimp only [List.head?_cons]
    by_cases closed : closing = some (tokenAt tokens start).kind
    · rw [decide_eq_true closed, if_pos rfl, if_pos closed]
      exact .pure le_rfl
    · rw [decide_eq_false closed, if_neg Bool.false_ne_true, if_neg closed]
      refine (ih.declaration n start inside (by omega) (by omega)).bind
        fun first middle past _ _ => ?_
      exact (ih.declarations n closing middle (by omega) (by omega)).bind
        fun others stop later _ _ => .pure (by omega)
  · refine Realizes.looking (fun _ => passes_stops_end ended closing) (.ahead ?_) within
    rw [drop_endIndex]
    exact .pure le_rfl

end InStepStatements

lemma inStepStatements (ended : ∃ token ∈ tokens, token.isEnd) (m : Nat) :
    InStepStatements tokens m := by
  induction m with
  | zero => constructor <;> (intros; omega)
  | succ m ih =>
      constructor
      case declaration =>
        rintro (_ | n) start inside steps allowed
        · omega
        · exact ih.declaration_succ ended inside steps allowed
      case statement =>
        rintro (_ | n) start steps allowed
        · omega
        · exact ih.statement_succ ended steps allowed
      case block =>
        rintro (_ | n) start steps allowed
        · omega
        · exact ih.block_succ ended steps allowed
      case declarations =>
        rintro (_ | n) closing start steps allowed
        · omega
        · exact ih.declarations_succ ended closing steps allowed

end Indexed

end LoxLang
