import Mathlib
import LoxLang.Proofs.Number.Pattern
import LoxLang.Proofs.Number.ReadBack
import LoxLang.Proofs.Session.Expression

/-!
# Printed numbers read back

What a program prints for a finite number is an expression of the language, and its value is that
number.  The numeral is one token, whatever its size; the minus sign in front of it is a token of its
own, and an operator whose operand is the numeral.

* `Expr.signed` — a number with a minus sign in front of it, if it needs one.
* `Scan.items_numeral`, `Program.parse_numeral` — the tokens and the tree of a numeral with its sign.
* `Action.evaluate_signed` — the sign gives back the number that it was taken off.
* **`Session.evaluate_shown`** — in every session the text of a finite number has that number as value.
-/

namespace LoxLang

open Number

/-- A number with a minus sign in front of it, if `negative` holds. -/
def Expr.signed (negative : Bool) (magnitude : Float) : Expr :=
  if negative then .unary ⟨.minus, "-", none, 1⟩ (.literal (.number magnitude))
  else .literal (.number magnitude)

/-- The token of a numeral on the first line. -/
def Token.numeral (lexeme : String) (magnitude : Float) : Token :=
  ⟨.number, lexeme, some (.number magnitude), 1⟩

/-- The tokens of a numeral with a minus sign in front of it, if `negative` holds. -/
def Token.signed (negative : Bool) (lexeme : String) (magnitude : Float) : List Token :=
  if negative then [⟨.minus, "-", none, 1⟩, .numeral lexeme magnitude]
  else [.numeral lexeme magnitude]

/-! ## Tokens -/

variable {pattern : Nat}

/-- A numeral at the end of a text is one segment. -/
lemma Number.Numeral.split {chars : List Char} (numeral : Numeral pattern chars) :
    ∃ first more, chars = first :: more ∧ Segment.split first more =
      (.token .number chars (some (.number (ofPattern false pattern))), []) := by
  cases numeral with
  | whole run reads =>
      obtain ⟨first, more, rfl, digit, within⟩ := run.exists_cons
      have cut := @Segment.numeral_whole [] first more within (fun _ _ none => by cases none)
        fun _ _ none => by cases none
      rw [List.append_nil, reads] at cut
      exact ⟨first, more, rfl, by rw [Segment.split_of_digit digit, cut]⟩
  | @fractional digits fraction run behind reads =>
      obtain ⟨first, more, rfl, digit, within⟩ := run.exists_cons
      have cut := @Segment.numeral_fractional [] first more fraction within behind
        fun _ _ none => by cases none
      rw [List.append_nil, reads] at cut
      exact ⟨first, more ++ '.' :: fraction, rfl, by rw [Segment.split_of_digit digit, cut]⟩

/-- No line ends within a numeral. -/
lemma Number.Numeral.count_newline {chars : List Char} (numeral : Numeral pattern chars) :
    chars.count '\n' = 0 := by
  have digits {run : List Char} (inside : IsDigits run) : run.count '\n' = 0 :=
    List.count_eq_zero.mpr fun mem => absurd (inside.2 _ mem) (by decide)
  cases numeral with
  | whole run _ => exact digits run
  | fractional run behind _ =>
      rw [List.count_append, List.count_cons, digits run, digits behind]
      rfl

namespace Scan

/-- A numeral is one token. -/
lemma itemsFrom_numeral {chars : List Char} (numeral : Numeral pattern chars) :
    itemsFrom 1 chars =
      [.ok (.numeral (.ofList chars) (ofPattern false pattern)), .ok (.endMark 1)] := by
  have flat := numeral.count_newline
  obtain ⟨first, more, rfl, cut⟩ := numeral.split
  rw [itemsFrom_of_split cut, itemsFrom]
  simp only [Segment.newlines, Segment.text, flat]
  rfl

/-- **The text of a signed numeral is its tokens and the end mark.** -/
lemma items_numeral {numeral : String} (negative : Bool) (reads : Numeral pattern numeral.toList) :
    items (minusIf negative ++ numeral) =
      (Token.signed negative numeral (ofPattern false pattern)).map .ok ++ [.ok (.endMark 1)] := by
  have behind := itemsFrom_numeral reads
  rw [String.ofList_toList] at behind
  cases negative with
  | false =>
      rw [minusIf, if_neg Bool.false_ne_true, String.empty_append]
      exact behind
  | true =>
      have cut : Segment.split '-' numeral.toList = (.token .minus ['-'] none, numeral.toList) := rfl
      have text : (minusIf true ++ numeral).toList = '-' :: numeral.toList := by simp [minusIf]
      rw [items, text, itemsFrom_of_split cut]
      exact congrArg _ behind

end Scan

/-! ## The tree -/

namespace Program

/-- **The tokens of a signed numeral are read as a number with its sign.** -/
lemma parse_numeral (negative : Bool) (lexeme : String) (magnitude : Float) :
    parseExpression (Token.signed negative lexeme magnitude ++ [.endMark 1]) =
      ⟨some (.signed negative magnitude), []⟩ := by
  have number : (Phrase.unary (.literal (.number magnitude))).Reads [.numeral lexeme magnitude] [] [] :=
    .callee (.literal rfl) .uncalled
  have signed : (Phrase.unary (.signed negative magnitude)).Reads
      (Token.signed negative lexeme magnitude) [] [] := by
    cases negative with
    | false => exact number
    | true => exact .sign (by simp) number
  have inner : ∀ token ∈ Token.signed negative lexeme magnitude, token.kind ≠ .endOfInput := by
    cases negative <;> simp [Token.signed, Token.numeral]
  rw [parseExpression_eq_iff, beforeEnd_append inner rfl]
  exact .plain ((Phrase.Reads.operand signed).loosen Level.all)

/-- The text of a signed numeral is read without problems. -/
lemma readExpression_numeral {numeral : String} (negative : Bool)
    (reads : Numeral pattern numeral.toList) : readExpression (minusIf negative ++ numeral) =
      (some (.signed negative (ofPattern false pattern)), []) := by
  rw [readExpression_eq_iff, Scan.items_numeral negative reads, (Scan.tokens_append_map _ _).1,
    (Scan.tokens_append_map _ _).2]
  exact ⟨rfl, parse_numeral negative numeral _⟩

end Program

/-! ## The value -/

/-- **A number with its sign is worth what its sign and its pattern say.** -/
lemma Action.evaluate_signed (n : Nat) (negative : Bool) (finite : pattern < infinity)
    (machine : Machine) : evaluate (n + 2) (.signed negative (ofPattern false pattern)) machine =
      .done (.number (ofPattern negative pattern)) machine := by
  cases negative with
  | false => rfl
  | true => exact congrArg (fun x => Outcome.done (Value.number x) machine) (neg_ofPattern false finite)

namespace Session

/-- **Printed numbers read back.**  For every finite number, the text that is printed for it is a
numeral, digits with or without a point and more digits behind them, and in front of the numeral a
minus sign exactly if the sign bit is set.  It scans to the numeral as one token, with the minus sign
as one token before it, and without errors.  In any session the value of that text is the number
itself, with all its bits; no problem is reported and nothing else changes. -/
theorem evaluate_shown {x : Float} (finite : x.isFinite) :
    ∃ (negative : Bool) (numeral : String) (magnitude : Float),
      (negative = true ↔ 2 ^ 63 ≤ x.toBits.toNat) ∧
      (Value.number x).shown = minusIf negative ++ numeral ∧
      (IsDigits numeral.toList ∨ ∃ digits fraction, IsDigits digits ∧ IsDigits fraction ∧
        numeral.toList = digits ++ '.' :: fraction) ∧
      Scan.items (Value.number x).shown =
        (if negative then [.ok ⟨.minus, "-", none, 1⟩] else []) ++
          [.ok ⟨.number, numeral, some (.number magnitude), 1⟩, .ok (.endMark 1)] ∧
      x = (if negative then -magnitude else magnitude) ∧
      ∀ (session : Session) (n : Nat), session.evaluate (n + 2) (Value.number x).shown =
        some (.ok (.number x), { session with log := session.log.reset }) := by
  obtain ⟨pattern, found⟩ := exists_parts finite
  have sign : decide (2 ^ 63 ≤ x.toBits.toNat) = true ↔ 2 ^ 63 ≤ x.toBits.toNat := decide_eq_true_iff
  generalize decide (2 ^ 63 ≤ x.toBits.toNat) = negative at found sign
  obtain ⟨bounded, rfl⟩ := eq_ofPattern found
  obtain ⟨numeral, shown, reads⟩ := text_numeral found bounded.le
  have shown : (Value.number (ofPattern negative pattern)).shown = minusIf negative ++ numeral := shown
  refine ⟨negative, numeral, ofPattern false pattern, sign, shown, ?shape, ?tokens, ?bits,
    fun session n => ?value⟩
  case shape =>
    generalize numeral.toList = chars at reads
    cases reads with
    | whole run _ => exact .inl run
    | fractional run behind _ => exact .inr ⟨_, _, run, behind, rfl⟩
  case tokens =>
    rw [shown, Scan.items_numeral negative reads]
    cases negative <;> rfl
  case bits =>
    cases negative with
    | false => rfl
    | true => exact (neg_ofPattern false bounded).symm
  case value =>
    rw [shown, evaluate_accepted _ session (Program.readExpression_numeral negative reads),
      Action.evaluate_signed n negative bounded]
    rfl

/-- Minus one tenth, which has no finite binary fraction: its text has one digit behind the point. -/
theorem evaluate_shown_tenth :
    let session := start (.direct .empty) fun _ => 0
    (Float.ofBits 0xBFB999999999999A).isFinite ∧
      (Value.number (.ofBits 0xBFB999999999999A)).shown = "-0.1" ∧
      session.evaluate 2 "-0.1" = some (.ok (.number (.ofBits 0xBFB999999999999A)), session) := by
  intro session
  have finite : (Float.ofBits 0xBFB999999999999A).isFinite := by decide +kernel
  have shown : (Value.number (.ofBits 0xBFB999999999999A)).shown = "-0.1" := by decide +kernel
  obtain ⟨_, _, _, _, _, _, _, _, value⟩ := evaluate_shown finite
  rw [shown] at value
  exact ⟨finite, shown, value session 0⟩

end Session

end LoxLang
