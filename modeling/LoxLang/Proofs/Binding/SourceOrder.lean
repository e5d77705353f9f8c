import LoxLang.Proofs.Binding.Offences
import LoxLang.Proofs.Binding.Resolver
import LoxLang.Proofs.Grammar.Fresh
import LoxLang.Proofs.Grammar.Numbered
import Mathlib

/-!
# Mistakes in the order of the source

Binding walks through a tree, in which the parts of a `for` loop do not stand as they were written: the
increment has moved behind the body.  Still what it tells of comes in the order of the source, for an
increment is an expression that initializes nothing.

To say which token of the source is meant, one takes the tree of the same tokens with their positions in
the place of their lines.

* `Meets` — places that reading comes to, in their order.
* `Phrase.Reads.meets`, **`Passage.Reads.meets`** — reading meets the places of the mistakes in
  the order in which binding tells of them.
* `Token.placed` — tokens with their positions; `Revision.unplaced` — the way back to the source.
* **`Program.reports_offences`** — what a walk tells of is each offence once, in the order of the
  source.
-/

namespace LoxLang

/-! ## Places that are met -/

/-- Reading tokens up to `rest` meets these places in this order. -/
def Meets (tokens rest places : List Token) : Prop :=
  ∃ read, tokens = read ++ rest ∧ places.Sublist read

namespace Meets

variable {tokens mid rest places early late : List Token} {token : Token}

lemma of_suffix (suffix : rest <:+ tokens) : Meets tokens rest [] := by
  obtain ⟨read, rfl⟩ := suffix
  exact ⟨read, rfl, List.nil_sublist read⟩

lemma refl (rest : List Token) : Meets rest rest [] := of_suffix List.suffix_rfl

lemma trans (first : Meets tokens mid early) (second : Meets mid rest late) :
    Meets tokens rest (early ++ late) := by
  obtain ⟨front, rfl, listed⟩ := first
  obtain ⟨back, rfl, listed'⟩ := second
  exact ⟨front ++ back, (List.append_assoc _ _ _).symm, listed.append listed'⟩

lemma skip (token : Token) (meets : Meets tokens rest places) :
    Meets (token :: tokens) rest places := by
  obtain ⟨read, rfl, listed⟩ := meets
  exact ⟨token :: read, rfl, listed.cons token⟩

lemma take (token : Token) (meets : Meets tokens rest places) :
    Meets (token :: tokens) rest (token :: places) := by
  obtain ⟨read, rfl, listed⟩ := meets
  exact ⟨token :: read, rfl, listed.cons_cons token⟩

/-- The mark that ends a part is read too. -/
lemma behind (meets : Meets tokens (token :: rest) places) : Meets tokens rest places := by
  have whole := meets.trans ((refl rest).skip token)
  rwa [List.append_nil] at whole

lemma mono (meets : Meets tokens rest places) (fewer : early.Sublist places) :
    Meets tokens rest early := by
  obtain ⟨read, rfl, listed⟩ := meets
  exact ⟨read, rfl, fewer.trans listed⟩

/-- A part in front of which nothing counts. -/
lemma from_suffix (suffix : mid <:+ tokens) (meets : Meets mid rest places) :
    Meets tokens rest places := (of_suffix suffix).trans meets

/-- A part behind which nothing counts. -/
lemma to_suffix (meets : Meets tokens mid places) (suffix : rest <:+ mid) :
    Meets tokens rest places := by
  have whole := meets.trans (of_suffix suffix)
  rwa [List.append_nil] at whole

end Meets

/-! ## Expressions -/

/-- The places at which an expression reads variables. -/
def Expr.reads (value : Expr) : List Token :=
  (value.occurrences.filter (!·.assigned)).map Occurrence.name

/-- The places at which arguments read variables. -/
def Expr.readsAll (values : List Expr) : List Token :=
  ((Expr.occurrencesAll values).filter (!·.assigned)).map Occurrence.name

lemma Expr.reads_node {level : Level} (listed : level ∈ Level.all) (left right : Expr)
    (operator : Token) : (level.node left operator right).reads = left.reads ++ right.reads := by
  rw [reads, Counted.occurrences_node listed, List.filter_append, List.map_append, reads, reads]

lemma Expr.readsAll_cons (first : Expr) (others : List Expr) :
    Expr.readsAll (first :: others) = first.reads ++ Expr.readsAll others := by
  rw [readsAll, occurrencesAll, List.filter_append, List.map_append, reads, readsAll]

lemma Expr.reads_call (callee : Expr) (paren : Token) (values : List Expr) :
    (Expr.call callee paren values).reads = callee.reads ++ Expr.readsAll values := by
  rw [reads, occurrences, List.filter_append, List.map_append, reads, readsAll]

lemma Expr.reads_assign (name : Token) (value : Expr) (hops : Option Nat) :
    (Expr.assign name value hops).reads = value.reads := by
  simp [reads, occurrences]

/-- An expression is told of where it reads a variable. -/
lemma Expr.places_mistakes (unready : Option String) (value : Expr) :
    ((value.mistakes unready).map ScopeReport.place).Sublist value.reads := by
  rw [Expr.mistakes_eq, reads]
  induction value.occurrences with
  | nil => exact List.Sublist.slnil
  | cons occurrence others ih =>
      cases found : occurrence.mistake? unready with
      | none =>
          rw [List.filterMap_cons_none found, List.filter_cons]
          split_ifs
          · exact ih.cons _
          · exact ih
      | some report =>
          rw [Occurrence.mistake?] at found
          split_ifs at found with read
          obtain rfl := Option.some.inj found
          rw [List.filterMap_cons_some (by rw [Occurrence.mistake?, if_pos read]),
            List.filter_cons_of_pos (by simp [read.1])]
          exact ih.cons_cons occurrence.name

namespace Phrase

/-- The variables that a phrase reads are met while it is read; in a chain and in calls, those behind
the first part. -/
def Met (tokens rest : List Token) : Phrase → Prop
  | assignment value => Meets tokens rest value.reads
  | operation levels value => levels ⊆ Level.all → Meets tokens rest value.reads
  | chain level tighter left value => level :: tighter ⊆ Level.all →
      ∃ more, value.reads = left.reads ++ more ∧ Meets tokens rest more
  | unary value => Meets tokens rest value.reads
  | calls callee value => ∃ more, value.reads = callee.reads ++ more ∧ Meets tokens rest more
  | arguments _ values => Meets tokens rest (Expr.readsAll values)
  | primary value => Meets tokens rest value.reads

variable {phrase : Phrase} {tokens rest : List Token} {reports : List SyntaxReport}

/-- **Reading an expression meets the variables that it reads**, in their order. -/
theorem Reads.meets (reads : phrase.Reads tokens reports rest) : phrase.Met tokens rest := by
  induction reads with
  | plain _ ih => exact ih (List.Subset.refl _)
  | assign target _ _ _ ihvalue =>
      rw [Met, Expr.reads_assign]
      exact .from_suffix (suffix_behind target.opens.suffix) ihvalue
  | mistaken _ _ _ value ihtarget _ =>
      exact (ihtarget (List.Subset.refl _)).behind.to_suffix value.opens.suffix
  | operand _ ih => exact fun _ => ih
  | row _ _ ihleft ihchain =>
      intro listed
      obtain ⟨more, whole, behind⟩ := ihchain listed
      rw [whole]
      exact (ihleft (List.subset_of_cons_subset listed)).trans behind
  | alone => exact fun _ => ⟨[], (List.append_nil _).symm, .refl _⟩
  | link _ _ _ ihright ihchain =>
      intro listed
      obtain ⟨more, whole, behind⟩ := ihchain listed
      rw [Expr.reads_node (listed List.mem_cons_self), List.append_assoc] at whole
      exact ⟨_, whole, ((ihright (List.subset_of_cons_subset listed)).trans behind).skip _⟩
  | sign _ _ ih => exact ih.skip _
  | callee _ _ ihcallee ihcalls =>
      obtain ⟨more, whole, behind⟩ := ihcalls
      rw [Met, whole]
      exact ihcallee.trans behind
  | uncalled => exact ⟨[], (List.append_nil _).symm, .refl _⟩
  | calledBare _ _ _ ih =>
      obtain ⟨more, whole, behind⟩ := ih
      rw [Expr.reads_call, List.append_assoc] at whole
      exact ⟨_, whole, (behind.skip _).skip _⟩
  | called _ _ _ _ iharguments ihcalls =>
      obtain ⟨more, whole, behind⟩ := ihcalls
      rw [Expr.reads_call, List.append_assoc] at whole
      exact ⟨_, whole, (iharguments.behind.trans behind).skip _⟩
  | last _ ih =>
      rw [Met, Expr.readsAll_cons]
      exact ih.trans (.refl _)
  | more _ _ _ ihvalue ihvalues =>
      rw [Met, Expr.readsAll_cons]
      exact ihvalue.behind.trans ihvalues
  | literal => exact (Meets.refl _).skip _
  | name => exact (Meets.refl _).take _
  | group _ _ _ ih => exact ih.behind.skip _

end Phrase

/-! ## Statements -/

/-- The places of reports. -/
abbrev ScopeReport.places (reports : List ScopeReport) : List Token := reports.map ScopeReport.place

lemma Frames.places_declaredTwice (frames : Frames) (name : Token) :
    (ScopeReport.places (frames.declaredTwice name)).Sublist [name] := by
  rw [declaredTwice]
  split_ifs
  · exact List.Sublist.refl _
  · exact List.nil_sublist _

lemma Frames.places_repeated : ∀ (names : List Token) (frames : Frames),
    (ScopeReport.places (frames.repeated names)).Sublist names
  | [], _ => List.Sublist.slnil
  | first :: others, frames => by
      rw [repeated, ScopeReport.places, List.map_append]
      exact (frames.places_declaredTwice first).append (places_repeated others _)

section Parts

variable {tokens rest : List Token} {reports : List SyntaxReport}

lemma VariableReads.meets {stmt : Stmt} (reads : VariableReads stmt tokens reports rest)
    (frames : Frames) (inFunction : Bool) :
    Meets tokens rest (ScopeReport.places (stmt.mistakes frames inFunction)) := by
  cases reads with
  | bare =>
      refine (((Meets.refl _).skip _).take _).mono ?_
      rw [Stmt.mistakes, Expr.mistakes?, List.append_nil]
      exact frames.places_declaredTwice _
  | @initialized name equals value semicolon tokens reports rest _ _ reads _ =>
      refine ((reads.meets.behind.skip equals).take name).mono ?_
      rw [Stmt.mistakes, Expr.mistakes?, ScopeReport.places, List.map_append]
      exact (frames.places_declaredTwice name).append (value.places_mistakes _)

lemma ParametersRead.meets {count : Nat} {names : List Token}
    (reads : ParametersRead count names tokens reports rest) : Meets tokens rest names := by
  induction reads with
  | last => exact (Meets.refl _).take _
  | more _ _ _ ih => exact (ih.skip _).take _

lemma SignatureReads.meets {name : Token} {names : List Token}
    (reads : SignatureReads name names tokens reports rest) : Meets tokens rest (name :: names) := by
  cases reads with
  | bare => exact ((((Meets.refl _).skip _).skip _).skip _).take _
  | listed _ _ names _ _ => exact (names.meets.behind.behind.skip _).take _

lemma ForReads.meets {initializer : Option Stmt} {condition increment : Option Expr}
    (reads : ForReads initializer condition increment tokens reports rest) (frames : Frames)
    (inFunction : Bool) :
    Meets tokens rest (ScopeReport.places (Stmt.mistakes? frames inFunction initializer)) := by
  cases reads with
  | clauses _ first condition _ increment _ =>
      have suffix := (suffix_behind increment.suffix).trans (suffix_behind condition.suffix)
      refine (Meets.to_suffix ?_ suffix).skip _
      cases first with
      | omitted => exact (Meets.refl _).skip _
      | declared _ reads => exact (reads.meets frames inFunction).skip _
      | @evaluated value _ _ _ _ reads _ =>
          rw [Stmt.mistakes?, Stmt.mistakes, value.mistakes_none]
          exact .of_suffix (suffix_behind reads.suffix)

end Parts

/-- The mistakes of a `for` loop are those of its initializer and then those of its body. -/
lemma Stmt.mistakes_forLoop (initializer : Option Stmt) (condition increment : Option Expr)
    (body : Stmt) (frames : Frames) (inFunction : Bool) : ∃ outer inner : Frames,
    (Stmt.forLoop initializer condition increment body).mistakes frames inFunction
      = Stmt.mistakes? outer inFunction initializer ++ body.mistakes inner inFunction := by
  cases initializer with
  | none =>
      cases increment with
      | none => exact ⟨frames, frames, by simp [forLoop, mistakes, mistakes?, Expr.mistakes_none]⟩
      | some step =>
          exact ⟨frames, [] :: frames,
            by simp [forLoop, mistakes, mistakes?, mistakesAll, Expr.mistakes_none]⟩
  | some first =>
      cases increment with
      | none =>
          exact ⟨[] :: frames, Frames.behind ([] :: frames) first,
            by simp [forLoop, mistakes, mistakes?, mistakesAll, Expr.mistakes_none]⟩
      | some step =>
          exact ⟨[] :: frames, [] :: Frames.behind ([] :: frames) first,
            by simp [forLoop, mistakes, mistakes?, mistakesAll, Expr.mistakes_none]⟩

namespace Passage

/-- The places of mistakes are met while a passage is read, whatever stands around it. -/
def Met (tokens rest : List Token) : Passage → Prop
  | declaration stmt => ∀ frames inFunction,
      Meets tokens rest (ScopeReport.places (stmt.mistakes frames inFunction))
  | statement _ stmt => ∀ frames inFunction,
      Meets tokens rest (ScopeReport.places (stmt.mistakes frames inFunction))
  | declarations stmts => ∀ frames inFunction,
      Meets tokens rest (ScopeReport.places (Stmt.mistakesAll frames inFunction stmts))

variable {passage : Passage} {tokens rest : List Token} {reports : List SyntaxReport}

/-- **Reading statements meets the places of their mistakes**, in their order. -/
theorem Reads.meets (reads : passage.Reads tokens reports rest) : passage.Met tokens rest := by
  induction reads with
  | @function _ name names _ _ _ _ _ _ _ _ signature _ _ ih =>
      intro frames inFunction
      have inside := ih ((frames.declare name).enter names) true
      refine ((signature.meets.trans inside.behind).skip _).mono ?_
      rw [Stmt.mistakes, ScopeReport.places, List.map_append, List.map_append]
      exact ((frames.places_declaredTwice name).append (Frames.places_repeated names _)).append
        (List.Sublist.refl _)
  | «variable» _ reads => exact fun frames inFunction => (reads.meets frames inFunction).skip _
  | plain _ ih => exact ih
  | @expression value _ _ _ _ reads _ =>
      intro frames inFunction
      rw [Stmt.mistakes, value.mistakes_none]
      exact .of_suffix (suffix_behind reads.suffix)
  | @print _ value _ _ _ _ _ reads _ =>
      intro frames inFunction
      rw [Stmt.mistakes, value.mistakes_none]
      exact .of_suffix (suffix_ahead (suffix_behind reads.suffix))
  | @return_ keyword value _ _ _ _ _ reads _ =>
      intro frames inFunction
      refine ((Meets.of_suffix (suffix_behind reads.suffix)).take keyword).mono ?_
      rw [Stmt.mistakes, Expr.mistakes?_none, List.append_nil]
      split_ifs
      · exact List.nil_sublist _
      · exact List.Sublist.refl _
  | block _ _ _ ih => exact fun frames inFunction => (ih _ inFunction).behind.skip _
  | @loop _ condition _ _ _ _ _ _ _ _ reads _ ih =>
      intro frames inFunction
      rw [Stmt.mistakes, condition.mistakes_none, List.nil_append]
      exact (Meets.from_suffix reads.suffix (ih frames inFunction)).skip _
  | @forLoop _ initializer condition increment _ body _ _ _ _ _ _ clauses _ ih =>
      intro frames inFunction
      obtain ⟨outer, inner, whole⟩ :=
        Stmt.mistakes_forLoop initializer condition increment body frames inFunction
      rw [whole, ScopeReport.places, List.map_append]
      exact ((clauses.meets outer inFunction).trans (ih inner inFunction)).skip _
  | @branch _ condition _ _ _ _ _ _ _ _ reads _ ih =>
      intro frames inFunction
      rw [Stmt.mistakes, condition.mistakes_none, List.nil_append, Stmt.mistakes?, List.append_nil]
      exact (Meets.from_suffix reads.suffix (ih frames inFunction)).skip _
  | @branchElse _ condition _ _ _ _ _ _ _ _ _ _ _ _ reads _ _ _ ihconsequent ihalternative =>
      intro frames inFunction
      rw [Stmt.mistakes, condition.mistakes_none, List.nil_append, ScopeReport.places,
        List.map_append]
      exact (Meets.from_suffix reads.suffix
        ((ihconsequent frames inFunction).behind.trans (ihalternative _ inFunction))).skip _
  | done => exact fun _ _ => .refl _
  | next _ _ ihfirst ihothers =>
      intro frames inFunction
      rw [Stmt.mistakesAll, ScopeReport.places, List.map_append]
      exact (ihfirst frames inFunction).trans (ihothers _ inFunction)

end Passage

/-! ## Positions -/

/-- Tokens with their positions in the place of their lines. -/
def Token.placed (tokens : List Token) : List Token :=
  tokens.mapIdx fun position token => { token with line := position }

/-- The revision that puts the lines of tokens in the place of their positions. -/
def Revision.unplaced (tokens : List Token) : Revision :=
  ⟨fun position => (tokens[position]?.map Token.line).getD 0, id⟩

namespace Token

variable (tokens : List Token)

lemma map_unplaced : (placed tokens).map (Token.revised (.unplaced tokens)) = tokens := by
  refine List.ext_getElem (by simp [placed]) fun position _ bound => ?_
  simp [placed, Token.revised, Revision.unplaced, bound]

/-- Positions grow along the source, so a token is known by its own. -/
lemma lines_placed : (placed tokens).map Token.line = List.range tokens.length :=
  List.ext_getElem (by simp [placed]) fun position _ _ => by simp [placed]

end Token

namespace Program

variable {tokens : List Token}

lemma beforeEnd_unplaced (tokens : List Token) :
    beforeEnd tokens = (beforeEnd (Token.placed tokens)).map (Token.revised (.unplaced tokens)) := by
  rw [← beforeEnd_revised, Token.map_unplaced]

/-- With positions, tokens read as the same program. -/
lemma parse_placed (silent : (parse tokens).reports = []) :
    (parse (Token.placed tokens)).reports = []
      ∧ (parse tokens).tree
        = Stmt.revisedAll (.unplaced tokens) (parse (Token.placed tokens)).tree := by
  have kinds : (beforeEnd (Token.placed tokens)).map Token.kind
      = (beforeEnd tokens).map Token.kind := by
    rw [beforeEnd_unplaced tokens, List.map_map]
    rfl
  have placed : (parse (Token.placed tokens)).reports = [] :=
    parse_silent_iff.mpr ((parse_silent_iff.mp silent).of_kinds kinds)
  have read : parse (Token.placed tokens) = ⟨(parse (Token.placed tokens)).tree, []⟩ := by
    rw [← placed]
  have back := parse_revised (r := .unplaced tokens) rfl read
  rw [Token.map_unplaced] at back
  exact ⟨placed, congrArg Parsed.tree back⟩

/-- Without errors in the syntax, mistakes are told of in the order of the source. -/
lemma places_mistakes (silent : (parse tokens).reports = []) :
    (ScopeReport.places (mistakes (parse tokens).tree)).Sublist tokens := by
  obtain ⟨read, whole, listed⟩ := (reads_of_silent silent).meets [] false
  rw [List.append_nil] at whole
  exact (whole ▸ listed).trans (List.takeWhile_sublist _)

/-- **A walk through a program tells of each offence once, in the order of the source.**  Take tokens
that read as a program without errors.  What a walk through the program tells of are its offences.
With positions in the place of lines, the tokens read as the same program; the offences in it, in the
order of their positions, are what is told of when the lines are put back.  Behind the walk there are
no scopes left, and it is in no function. -/
theorem reports_offences (silent : (parse tokens).reports = []) (table : Table) :
    let placed := Token.placed tokens
    let source := Revision.unplaced tokens
    let program := (parse tokens).tree
    let pass := (⟨[], false, [], table⟩ : Resolver).statements program
    pass.reports = mistakes program
      ∧ (∀ error place, ⟨error, place⟩ ∈ pass.reports ↔ Offends program error place)
      ∧ placed.map (Token.revised source) = tokens
      ∧ program = Stmt.revisedAll source (parse placed).tree
      ∧ (∃ reports : List ScopeReport, pass.reports = reports.map (ScopeReport.revised source)
        ∧ (∀ error place, ⟨error, place⟩ ∈ reports ↔ Offends (parse placed).tree error place)
        ∧ (ScopeReport.places reports).Sublist placed
        ∧ (reports.map (·.place.line)).Pairwise (· < ·))
      ∧ pass.scopes = [] ∧ pass.inFunction = false := by
  intro placed source program pass
  obtain ⟨silentPlaced, same⟩ := parse_placed silent
  have walked : pass = ⟨[], false, mistakes program, table.enterAll (Stmt.findingsAll [] program)⟩ :=
    Resolver.program_eq program [] table
  have told : pass.reports = mistakes program := congrArg Resolver.reports walked
  have order := places_mistakes silentPlaced
  have lines := order.map Token.line
  rw [Token.lines_placed, ScopeReport.places, List.map_map] at lines
  refine ⟨told, fun error place => ?_, Token.map_unplaced tokens, same,
    ⟨mistakes (parse placed).tree, ?_, fun error place => ?_, order, ?_⟩,
    congrArg Resolver.scopes walked, congrArg Resolver.inFunction walked⟩
  · rw [told]
    exact mem_mistakes_iff (parse_fresh tokens).1
  · rw [told, mistakes, mistakes, ← Stmt.mistakesAll_revised, ← same]
  · exact mem_mistakes_iff (parse_fresh placed).1
  · exact List.Pairwise.sublist lines List.pairwise_lt_range

/-- In `{ var a = a; var a; } return;`, the variable is read too early and declared once more, and the
`return` stands in no function. -/
theorem reports_offences_block :
    let name : Token := ⟨.identifier, "a", none, 1⟩
    let keyword : Token := ⟨.keyword .return_, "return", none, 2⟩
    let tokens : List Token := [Kind.leftBrace.mark, (Kind.keyword .var).mark, name,
      Kind.equal.mark, name, Kind.semicolon.mark, (Kind.keyword .var).mark, name,
      Kind.semicolon.mark, Kind.rightBrace.mark, keyword, Kind.semicolon.mark, .endMark 2]
    let empty : Table := fun _ => none
    let pass := (⟨[], false, [], empty⟩ : Resolver).statements (parse tokens).tree
    (parse tokens).reports = [] ∧ Offends (parse tokens).tree .returnOutside keyword
      ∧ pass.reports
        = [⟨.ownInitializer, name⟩, ⟨.declaredTwice, name⟩, ⟨.returnOutside, keyword⟩] := by
  intro name keyword tokens empty pass
  have read : parse tokens = ⟨[.block [.variable name (some (.variable name none)),
      .variable name none], .return_ keyword none], []⟩ := by
    simp only [tokens, name, keyword]
    cbv
  have silent : (parse tokens).reports = [] := by rw [read]
  obtain ⟨told, offends, -⟩ := reports_offences silent empty
  have reports : mistakes (parse tokens).tree
      = [⟨.ownInitializer, name⟩, ⟨.declaredTwice, name⟩, ⟨.returnOutside, keyword⟩] := by
    rw [read]
    decide
  have walked : (⟨[], false, [], empty⟩ : Resolver).statements (parse tokens).tree = pass := rfl
  rw [walked] at told offends
  refine ⟨silent, (offends _ _).mp ?_, told.trans reports⟩
  rw [told, reports]
  simp

end Program

end LoxLang
