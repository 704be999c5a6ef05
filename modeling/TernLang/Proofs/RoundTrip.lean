import TernLang.Proofs.Eval.Bind
import TernLang.Proofs.Munch
import TernLang.Proofs.Number.Numerals
import TernLang.Proofs.Number.Order
import TernLang.Proofs.Parser.Completeness.Expression

/-! # Printed numbers read back

A numeral is split into its digits and, in front of them, a minus sign
(`Numeral.lex_chars`), these are parsed as an expression (`Numeral.expression`), and the
value of that is the number that the digits read as, turned round if there is a sign
(`Numeral.evaluatesTo`). What is printed for a finite number is such a numeral, so
**printed numbers read back** (`number_round_trip`).
-/

namespace TernLang

open Number Grammar

namespace Numeral

variable {numeral : Numeral}

/-! ## Tokens -/

def number (numeral : Numeral) : Token :=
  ⟨.number numeral.whole numeral.fraction, 1⟩

def tokens (numeral : Numeral) : List Token :=
  if numeral.negative then [sym .minus 1, numeral.number] else [numeral.number]

/-- The numeral of a finite number is a token that can be written. -/
theorem valid_number (numeral : Numeral) : numeral.number.kind.Valid :=
  ⟨numeral.some, numeral.digits, numeral.digits'⟩

theorem chars_number (numeral : Numeral) :
    numeral.number.kind.chars = numeral.whole ++ pointed numeral.fraction :=
  TernLang.chars_number _ _

/-- A numeral starts with a digit behind its sign. -/
theorem exists_first (numeral : Numeral) : ∃ first rest,
    numeral.number.kind.chars = first :: rest ∧ first.isDigit = true := by
  obtain ⟨first, rest, whole⟩ := List.exists_cons_of_ne_nil numeral.some
  refine ⟨first, rest ++ pointed numeral.fraction, ?_, ?_⟩
  · rw [chars_number, whole]
    rfl
  · have digits := numeral.digits
    rw [whole, List.all_cons, Bool.and_eq_true] at digits
    exact digits.1

/-- The digits of a numeral are one token. -/
theorem lexAt_number (numeral : Numeral) :
    lexAt 1 numeral.number.kind.chars = ⟨[numeral.number, ⟨.endOfInput, 1⟩], none⟩ := by
  obtain ⟨first, rest, chars, digit⟩ := numeral.exists_first
  have longest : numeral.number.kind.LongestIn numeral.number.kind.chars [] :=
    ⟨numeral.valid_number, (List.append_nil _).symm, fun _ _ front => front.length_le⟩
  have code : ¬ ['/', '/'] <+: numeral.number.kind.chars := by
    rw [chars, List.cons_prefix_cons]
    rintro ⟨rfl, -⟩
    cases digit
  rw [lexAt_token 1 longest code, count_lineFeed numeral.valid_number (by rintro ⟨⟩)]
  rfl

/-- A minus sign in front of a digit is a token by itself. -/
theorem lexAt_minus (numeral : Numeral) :
    lexAt 1 ('-' :: numeral.number.kind.chars) =
      (lexAt 1 numeral.number.kind.chars).push (sym .minus 1) := by
  obtain ⟨first, rest, chars, digit⟩ := numeral.exists_first
  have longest : (TokenKind.symbol .minus).LongestIn ('-' :: numeral.number.kind.chars)
      numeral.number.kind.chars := by
    refine longestIn_symbol rfl fun other front => ?_
    by_contra two
    -- the second character of a longer symbol would be the digit
    obtain ⟨c, d, text⟩ : ∃ c d, other.text.toList = [c, d] := by
      rcases other.text_cases with ⟨c, text, -⟩ | ⟨c, d, text, -⟩
      · rw [text] at two
        exact absurd (Nat.le_refl 1) two
      · exact ⟨c, d, text⟩
    rw [text, chars, List.cons_prefix_cons, List.cons_prefix_cons] at front
    obtain ⟨-, rfl, -⟩ := front
    have symbol := other.initial_eq d (by rw [text]; simp)
    rw [initial_of_isDigit digit] at symbol
    cases symbol
  have code : ¬ ['/', '/'] <+: '-' :: numeral.number.kind.chars := by
    rw [List.cons_prefix_cons]
    rintro ⟨⟨⟩, -⟩
  exact lexAt_token 1 longest code

/-- **A numeral is split into its sign and its digits.** -/
theorem lex_chars (numeral : Numeral) :
    lex (String.ofList numeral.chars) = ⟨numeral.tokens ++ [⟨.endOfInput, 1⟩], none⟩ := by
  rw [lex_eq_lexAt, String.toList_ofList, chars, ← chars_number]
  unfold tokens
  cases numeral.negative with
  | false => exact numeral.lexAt_number
  | true =>
      show lexAt 1 ('-' :: numeral.number.kind.chars) = _
      rw [lexAt_minus, lexAt_number]
      rfl

/-! ## Trees -/

/-- The constant that the digits stand for. -/
def constant (numeral : Numeral) : Float :=
  TokenKind.numberValue numeral.whole numeral.fraction

def tree (numeral : Numeral) : Expr :=
  if numeral.negative then .unary .negate (.literal (.number numeral.constant) 1) 1
  else .literal (.number numeral.constant) 1

/-- The tokens of a numeral are an expression. -/
theorem expression (numeral : Numeral) : Expression .assignment numeral.tokens numeral.tree := by
  have digits : Expression .primary [numeral.number] (.literal (.number numeral.constant) 1) :=
    .number
  unfold tokens tree
  cases numeral.negative with
  | false => exact .of_primary digits
  | true =>
      have signed : Expression .unary [sym (UnaryOp.symbol .negate) 1, numeral.number]
          (.unary .negate (.literal (.number numeral.constant) 1) 1) :=
        .unary (.ofCall (.of_tighter rfl digits))
      exact .of_unary signed

theorem length_tokens_le (numeral : Numeral) : numeral.tokens.length ≤ 2 := by
  unfold tokens
  split
  · exact Nat.le_refl 2
  · exact Nat.le_succ 1

/-! ## Values -/

def value (numeral : Numeral) : Float :=
  if numeral.negative then -numeral.constant else numeral.constant

/-- The value of a numeral has the bits that the numeral was made of. -/
theorem unpack_value (number : numeral.bits ≤ infinityBits) :
    numeral.value.toModel.unpack = partsOf numeral.negative numeral.bits := by
  have parts : numeral.constant.toModel.unpack = partsOf false numeral.bits :=
    unpack_ofMagnitudeBits false number
  unfold value
  cases numeral.negative with
  | false => exact parts
  | true => exact unpack_neg number parts

theorem isNaN_value (number : numeral.bits ≤ infinityBits) : numeral.value.isNaN = false := by
  show numeral.value.toModel.unpack.isNaN = false
  rw [unpack_value number, isNaN_partsOf]

end Numeral

/-! ## Texts of expressions -/

/-- The text is that of the expression: it is split into tokens without an error, and with
room enough the parser takes all of them as the expression and notes no mistake. -/
structure IsTextOf (source : String) (tree : Expr) : Prop where
  split : (lex source).error? = none
  parsed : ∀ room, 48 ≤ room → ∃ after,
    Parse.expression (lex source).tokens.length room (Cursor.start (lex source).tokens) =
      .ok tree after ∧ after.atEnd = true ∧ after.errors = #[]

/-- The expression has the value in every scope of every machine, which it leaves as it is. -/
def EvaluatesTo (tree : Expr) (value : Value) : Prop :=
  ∀ (limits : Limits) (room : Nat) (scope : ScopeRef) (machine : Machine), 4 ≤ room →
    Eval.evaluate limits room scope tree machine = .ok value machine

/-- The numeral is parsed to its tree. -/
theorem Numeral.isTextOf (numeral : Numeral) :
    IsTextOf (String.ofList numeral.chars) numeral.tree := by
  have lexed := numeral.lex_chars
  have short := numeral.length_tokens_le
  refine ⟨by rw [lexed], fun room enough => ?_⟩
  obtain ⟨room, rfl⟩ := Nat.exists_eq_add_of_le' (show 1 ≤ room by omega)
  rw [lexed]
  have reads : (Cursor.start (numeral.tokens ++ [⟨.endOfInput, 1⟩])).Reads numeral.tokens
      ⟨[⟨.endOfInput, 1⟩], numeral.tokens.getLast?, #[], 0⟩ :=
    ⟨rfl, (Option.or_none).symm, rfl, rfl⟩
  have run := numeral.expression.parses (numeral.tokens ++ [(⟨.endOfInput, 1⟩ : Token)]).length room
    (by simp) (by simp only [Level.cost]; omega) _ _ reads (Level.stopsAt_of_none rfl)
  exact ⟨_, run, rfl, rfl⟩

namespace Eval

variable {limits : Limits} {room line : Nat} {scope : ScopeRef} {machine after : Machine}

theorem evaluate_literal (literal : Literal) :
    evaluate limits (room + 2) scope (.literal literal line) machine =
      .ok (.ofLiteral literal) machine := by
  rw [evaluate]
  rfl

/-- A number that is turned round to a number is no new object. -/
theorem evaluate_negate {right : Expr} {y : Float}
    (run : evaluate limits room scope right machine = .ok (.ofFloat y) after)
    (number : (-y).isNaN = false) :
    evaluate limits (room + 2) scope (.unary .negate right line) machine =
      .ok (.ofFloat (-y)) after := by
  have settled : settle (.number (-y)) after = .ok (.ofFloat (-y)) after := by
    simp only [settle, allocate, Heap.newNumber, number, Bool.false_eq_true, if_false]
  rw [evaluate]
  refine mapStop_ok ?_
  rw [bind_run_ok run]
  exact settled

end Eval

/-- The tree of a numeral evaluates to its value. -/
theorem Numeral.evaluatesTo {numeral : Numeral} (number : numeral.bits ≤ infinityBits) :
    EvaluatesTo numeral.tree (.ofFloat numeral.value) := by
  intro limits room scope machine enough
  obtain ⟨room, rfl⟩ := Nat.exists_eq_add_of_le' enough
  have number := isNaN_value number
  unfold tree value at *
  cases sign : numeral.negative with
  | false => exact Eval.evaluate_literal _
  | true =>
      rw [sign] at number
      exact Eval.evaluate_negate (Eval.evaluate_literal _) number

/-! ## Numbers -/

section Numbers

variable {x : Float}

/-- A number that is not less than zero has no sign, unless it is zero. -/
theorem Number.isNegative_of_nonneg (nonneg : 0 ≤ x) :
    isNegative x = false ∨ magnitudeBits x = 0 := by
  obtain ⟨-, number⟩ := number_of_le nonneg
  have size := isNaN_eq_false_iff.mp number
  by_contra other
  rw [not_or, Bool.not_eq_false] at other
  obtain ⟨negative, some⟩ := other
  have place : place x.toModel.unpack < place (0 : Float).toModel.unpack := by
    rw [unpack_eq size, negative]
    show Number.place (partsOf true (magnitudeBits x)) < toLex (0, toLex (0, 0))
    rcases partsOf_cases true (magnitudeBits x) with ⟨-, parts⟩ | ⟨-, _, parts⟩ | ⟨-, zero, -⟩
    · rw [parts]
      exact Prod.Lex.toLex_lt_toLex.mpr (.inl (show (-2 : ℤ) < 0 by decide))
    · rw [parts]
      exact Prod.Lex.toLex_lt_toLex.mpr (.inl (show (-1 : ℤ) < 0 by decide))
    · exact absurd (bits_eq_zero zero) some
  rw [le_iff_place (by rfl) number] at nonneg
  exact absurd place (not_lt.mpr nonneg)

theorem Number.magnitudeBits_of_beq_zero (zero : (x == 0) = true) : magnitudeBits x = 0 := by
  have number := isNaN_eq_false_iff.mp ((beq_iff x 0).mp zero).1
  exact ((beq_iff_bits number (by decide)).mp zero).1.trans (by decide)

/-- The value of a numeral with the sign and the bits of a number is equal to it. -/
theorem Numeral.value_beq {numeral : Numeral} (finite : magnitudeBits x < infinityBits)
    (bits : numeral.bits = magnitudeBits x)
    (sign : numeral.negative = (isNegative x && magnitudeBits x != 0)) :
    (numeral.value == x) = true := by
  have number := bits.trans_le finite.le
  rw [beq_iff, unpack_value number, unpack_eq finite.le, bits]
  refine ⟨isNaN_value number, partsOf_congr _ ?_⟩
  by_cases zero : magnitudeBits x = 0
  · exact .inr zero
  · left
    rw [sign, bne_iff_ne.mpr zero, Bool.and_true]

/-- **Printed numbers read back.** A finite number is printed as a numeral. If it is not
negative, then the text is one token, and its digits read as a number equal to it. In any
case the text is that of an expression, and its value is a number equal to it. Both zeros
are printed as `0`. -/
theorem number_round_trip (finite : x.isFinite = true) : ∃ numeral : Numeral,
    (Number.display x).toList = numeral.chars ∧
    (0 ≤ x → lex (Number.display x) =
        ⟨[⟨.number numeral.whole numeral.fraction, 1⟩, ⟨.endOfInput, 1⟩], none⟩ ∧
      (TokenKind.numberValue numeral.whole numeral.fraction == x) = true) ∧
    (∃ tree y, IsTextOf (Number.display x) tree ∧ EvaluatesTo tree (.ofFloat y) ∧
      (y == x) = true) ∧
    ((x == 0) = true → Number.display x = "0") := by
  have size := isFinite_iff.mp finite
  obtain ⟨numeral, printed, bits, sign⟩ := displayChars_eq_numeral (decide_eq_true size)
  have text : Number.display x = String.ofList numeral.chars := congrArg String.ofList printed
  have equal := numeral.value_beq size bits sign
  refine ⟨numeral, ?_, fun nonneg => ?_, ?_, fun zero => ?_⟩
  · rw [text, String.toList_ofList]
  · have plain : numeral.negative = false := by
      rw [sign]
      rcases Number.isNegative_of_nonneg nonneg with positive | zero
      · rw [positive, Bool.false_and]
      · rw [zero, bne_self_eq_false, Bool.and_false]
    constructor
    · rw [text, numeral.lex_chars, Numeral.tokens, plain]
      rfl
    · rw [Numeral.value, plain] at equal
      exact equal
  · exact ⟨numeral.tree, numeral.value, text ▸ numeral.isTextOf,
      Numeral.evaluatesTo (bits.trans_le size.le), equal⟩
  · exact congrArg String.ofList (displayChars_of_zero (Number.magnitudeBits_of_beq_zero zero))

/-- The negative number next to zero is printed with 324 digits behind the point, which read
back as that number. -/
theorem number_round_trip_smallest :
    (ofMagnitudeBits true 1).isFinite = true ∧
      ∃ tree y, IsTextOf (Number.display (ofMagnitudeBits true 1)) tree ∧
        EvaluatesTo tree (.ofFloat y) ∧ (y == ofMagnitudeBits true 1) = true := by
  have finite : (ofMagnitudeBits true 1).isFinite = true := by decide
  obtain ⟨_, -, -, back, -⟩ := number_round_trip finite
  exact ⟨finite, back⟩

end Numbers

end TernLang
