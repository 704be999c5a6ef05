import Mathlib.Data.List.TakeWhile
import TernLang.Token.Lexer

/-! # The lexemes of tokens

A kind of token is `Valid` if there is a token of that kind in some text: the digits of
a number are digits, there is no quote inside a string, and a name is not a keyword.
The first character of its lexeme says of which sort the token is (`Valid.first`), so
that lexemes are compared within their sort only. **No two valid kinds have the same
lexeme** (`chars_injective`), and only strings hold white space (`not_isBlank`).
-/

namespace TernLang

/-- A name start and then characters of names. -/
def isWord : List Char → Bool
  | [] => false
  | c :: rest => isNameStart c && rest.all isNameChar

/-- Tokens of the kind occur in texts. The end of the input is written nowhere. -/
def TokenKind.Valid : TokenKind → Prop
  | .symbol _ | .keyword _ => True
  | .identifier name => isWord name.toList = true ∧ Keyword.ofText? name = none
  | .number whole fraction => whole ≠ [] ∧ whole.all Char.isDigit = true ∧
      fraction.all Char.isDigit = true
  | .string contents => '"' ∉ contents.toList
  | .endOfInput => False

instance : DecidablePred TokenKind.Valid
  | .symbol _ | .keyword _ => .isTrue trivial
  | .identifier name =>
      inferInstanceAs (Decidable (isWord name.toList = true ∧ Keyword.ofText? name = none))
  | .number whole fraction =>
      inferInstanceAs (Decidable (whole ≠ [] ∧ whole.all Char.isDigit = true ∧
        fraction.all Char.isDigit = true))
  | .string contents => inferInstanceAs (Decidable ('"' ∉ contents.toList))
  | .endOfInput => .isFalse id

/-- The characters of a lexeme. -/
abbrev TokenKind.chars (kind : TokenKind) : List Char :=
  kind.lexeme.toList

/-! ## Runs of characters -/

section Runs

variable {p : Char → Bool} {xs ys rest : List Char}

/-- The text does not go on with such a character. -/
def Stops (p : Char → Bool) (rest : List Char) : Prop :=
  ∀ c ∈ rest.head?, p c = false

theorem stops_cons {c : Char} : Stops p (c :: rest) ↔ p c = false := by
  simp [Stops]

theorem stops_nil : Stops p [] :=
  nofun

theorem stops_dropWhile (p : Char → Bool) (xs : List Char) : Stops p (xs.dropWhile p) := by
  intro c mem
  have stopped := List.head?_dropWhile_not p xs
  rwa [mem] at stopped

/-- A run of characters up to where it stops. -/
theorem takeWhile_run (run : xs.all p = true) (stops : Stops p rest) :
    (xs ++ rest).takeWhile p = xs := by
  rw [List.takeWhile_append_of_pos (List.all_eq_true.mp run)]
  cases rest with
  | nil => exact List.append_nil xs
  | cons c rest =>
      rw [List.takeWhile_cons_of_neg (Bool.eq_false_iff.mp (stops_cons.mp stops)), List.append_nil]

/-- Behind a run of characters, dropping them stops where the run stops. -/
theorem dropWhile_run (run : xs.all p = true) (stops : Stops p rest) :
    (xs ++ rest).dropWhile p = rest := by
  rw [List.dropWhile_append_of_pos (List.all_eq_true.mp run)]
  cases rest with
  | nil => rfl
  | cons c rest => exact List.dropWhile_cons_of_neg (Bool.eq_false_iff.mp (stops_cons.mp stops))

/-- A text without a character is a run up to it. -/
theorem all_bne {c : Char} (absent : c ∉ xs) : xs.all (· != c) = true := by
  rw [List.all_eq_true]
  intro d mem
  rw [bne_iff_ne]
  rintro rfl
  exact absent mem

/-- A run in front of a text is part of the longest one. -/
theorem prefix_takeWhile (run : xs.all p = true) (front : xs <+: ys) : xs <+: ys.takeWhile p := by
  obtain ⟨rest, rfl⟩ := front
  rw [List.takeWhile_append_of_pos (List.all_eq_true.mp run)]
  exact List.prefix_append _ _

end Runs

/-! ## First characters -/

/-- A character of white space, in a line or at its end. -/
def IsBlank (c : Char) : Prop :=
  isSpace c = true ∨ c = '\n'

instance (c : Char) : Decidable (IsBlank c) :=
  inferInstanceAs (Decidable (_ ∨ _))

theorem IsBlank.cases {c : Char} (blank : IsBlank c) :
    c = ' ' ∨ c = '\t' ∨ c = '\r' ∨ c = '\x0c' ∨ c = '\x0b' ∨ c = '\n' := by
  simpa only [IsBlank, isSpace, Bool.or_eq_true, beq_iff_eq, or_assoc] using blank

/-- The sorts of tokens that are told apart by their first character. -/
inductive Initial where
  | digit | quote | letter | symbol | none
  deriving DecidableEq

/-- The sort of tokens that start with a character. -/
def initial (c : Char) : Initial :=
  if c.isDigit then .digit
  else if c == '"' then .quote
  else if isNameStart c then .letter
  else if (Symbol.ofChar? c).isSome then .symbol
  else .none

/-- The sort that a kind belongs to. -/
def TokenKind.initial : TokenKind → Initial
  | .symbol _ => .symbol
  | .keyword _ | .identifier _ => .letter
  | .number _ _ => .digit
  | .string _ => .quote
  | .endOfInput => .none

theorem IsBlank.initial_eq {c : Char} (blank : IsBlank c) : initial c = .none := by
  rcases blank.cases with rfl | rfl | rfl | rfl | rfl | rfl <;> rfl

theorem not_isDigit_of_isNameStart {c : Char} (start : isNameStart c = true) :
    c.isDigit = false := by
  have nine : '9'.val.toNat = 57 := rfl
  have upper : 'A'.val.toNat = 65 := rfl
  have lower : 'a'.val.toNat = 97 := rfl
  unfold isNameStart Char.isAlpha Char.isUpper Char.isLower at start
  simp only [Bool.or_eq_true, Bool.and_eq_true, decide_eq_true_eq, ge_iff_le, beq_iff_eq,
    UInt32.le_iff_toNat_le] at start
  rw [← Bool.not_eq_true]
  simp only [Char.isDigit, Bool.and_eq_true, decide_eq_true_eq, ge_iff_le, UInt32.le_iff_toNat_le]
  rcases start with (⟨low, -⟩ | ⟨low, -⟩) | rfl
  · omega
  · omega
  · decide

theorem initial_of_isDigit {c : Char} (digit : c.isDigit = true) : initial c = .digit :=
  if_pos digit

theorem initial_of_isNameStart {c : Char} (start : isNameStart c = true) :
    initial c = .letter := by
  have quote : (c == '"') = false := by
    rw [beq_eq_false_iff_ne]
    rintro rfl
    cases start
  simp [initial, not_isDigit_of_isNameStart start, quote, start]

theorem initial_of_ofChar? {c : Char} {s : Symbol} (found : Symbol.ofChar? c = some s) :
    initial c = .symbol := by
  unfold Symbol.ofChar? at found
  split at found <;> first | rfl | cases found

/-! ## Valid kinds -/

theorem isNameStart_isNameChar {c : Char} (start : isNameStart c = true) :
    isNameChar c = true := by
  simp only [isNameStart, isNameChar, Char.isAlphanum, Bool.or_eq_true] at start ⊢
  exact start.imp_left .inl

theorem all_isNameChar_of_isWord {w : List Char} (word : isWord w = true) :
    w.all isNameChar = true := by
  cases w with
  | nil => cases word
  | cons c rest =>
      rw [isWord, Bool.and_eq_true] at word
      rw [List.all_cons, Bool.and_eq_true]
      exact ⟨isNameStart_isNameChar word.1, word.2⟩

theorem Keyword.isWord_text (k : Keyword) : isWord k.text.toList = true := by
  cases k <;> rfl

theorem Keyword.wordKind_text (k : Keyword) : wordKind k.text.toList = .keyword k := by
  cases k <;> rfl

theorem wordKind_of_some {w : List Char} {k : Keyword}
    (found : Keyword.ofText? (String.ofList w) = some k) : wordKind w = .keyword k := by
  simp only [wordKind, found]

theorem wordKind_of_none {w : List Char} (free : Keyword.ofText? (String.ofList w) = none) :
    wordKind w = .identifier (String.ofList w) := by
  simp only [wordKind, free]

/-- A word is the lexeme of its kind. -/
theorem valid_wordKind {w : List Char} (word : isWord w = true) :
    (wordKind w).Valid ∧ (wordKind w).chars = w := by
  cases found : Keyword.ofText? (String.ofList w) with
  | none =>
      rw [wordKind_of_none found]
      refine ⟨⟨?_, found⟩, String.toList_ofList⟩
      rwa [String.toList_ofList]
  | some k =>
      have same : k.text = String.ofList w := by simpa using List.find?_some found
      rw [wordKind_of_some found]
      refine ⟨trivial, ?_⟩
      show k.text.toList = w
      rw [same, String.toList_ofList]

/-- The kind of a word is that of its lexeme. -/
theorem TokenKind.Valid.word {kind : TokenKind} (valid : kind.Valid)
    (sort : kind.initial = .letter) : isWord kind.chars = true ∧ wordKind kind.chars = kind := by
  cases kind with
  | keyword k => exact ⟨k.isWord_text, k.wordKind_text⟩
  | identifier name =>
      obtain ⟨word, free⟩ := valid
      have spelled : String.ofList name.toList = name := String.ofList_toList
      refine ⟨word, ?_⟩
      show wordKind name.toList = _
      rw [wordKind_of_none (by rwa [spelled]), spelled]
  | symbol | number | string | endOfInput => cases sort

/-- The characters of a fraction, with the point. -/
def pointed : List Char → List Char
  | [] => []
  | fraction => '.' :: fraction

theorem chars_number (whole fraction : List Char) :
    (TokenKind.number whole fraction).chars = whole ++ pointed fraction := by
  show (TokenKind.numberText whole fraction).toList = _
  unfold TokenKind.numberText
  rw [String.toList_ofList]
  cases fraction with
  | nil => exact (List.append_nil whole).symm
  | cons d rest => rfl

theorem chars_string (contents : String) :
    (TokenKind.string contents).chars = '"' :: (contents.toList ++ ['"']) := by
  show ("\"" ++ contents ++ "\"").toList = _
  rw [String.toList_append, String.toList_append]
  rfl

/-- A symbol has one character, or two that make a pair. -/
theorem Symbol.text_cases (s : Symbol) :
    (∃ c, s.text.toList = [c] ∧ ofChar? c = some s) ∨
      ∃ c d, s.text.toList = [c, d] ∧ ofPair? c d = some s ∧ (ofChar? c).isSome ∧
        (ofChar? d).isSome := by
  cases s with
  | equalEqual | bangEqual | lessEqual | greaterEqual | plusPlus | minusMinus =>
      exact .inr ⟨_, _, rfl, rfl, rfl, rfl⟩
  | _ => exact .inl ⟨_, rfl, rfl⟩

/-- A symbol is made of characters of symbols. -/
theorem Symbol.initial_eq (s : Symbol) : ∀ c ∈ s.text.toList, initial c = .symbol := by
  have single {c : Char} (found : (ofChar? c).isSome) : initial c = .symbol :=
    initial_of_ofChar? (Option.get_mem found)
  rcases s.text_cases with ⟨c, text, found⟩ | ⟨c, d, text, -, found, found'⟩ <;> rw [text]
  · exact List.forall_mem_singleton.mpr (initial_of_ofChar? found)
  · exact List.forall_mem_cons.mpr ⟨single found, List.forall_mem_singleton.mpr (single found')⟩

theorem Symbol.text_of_ofChar? {c : Char} {s : Symbol} (found : ofChar? c = some s) :
    s.text.toList = [c] := by
  unfold ofChar? at found
  split at found <;> cases found <;> rfl

theorem Symbol.text_of_ofPair? {c d : Char} {s : Symbol} (found : ofPair? c d = some s) :
    s.text.toList = [c, d] := by
  unfold ofPair? at found
  split at found <;> cases found <;> rfl

/-- **The first character of a lexeme says of which sort the token is.** -/
theorem TokenKind.Valid.first {kind : TokenKind} (valid : kind.Valid) :
    ∃ c more, kind.chars = c :: more ∧ TernLang.initial c = kind.initial := by
  have word (sort : kind.initial = .letter) :
      ∃ c more, kind.chars = c :: more ∧ TernLang.initial c = kind.initial := by
    obtain ⟨spelled, -⟩ := valid.word sort
    cases chars : kind.chars with
    | nil =>
        rw [chars] at spelled
        cases spelled
    | cons c more =>
        rw [chars, isWord, Bool.and_eq_true] at spelled
        exact ⟨c, more, rfl, (initial_of_isNameStart spelled.1).trans sort.symm⟩
  cases kind with
  | keyword | identifier => exact word rfl
  | symbol s =>
      have sort := s.initial_eq
      rcases s.text_cases with ⟨c, text, -⟩ | ⟨c, d, text, -⟩ <;> rw [text] at sort
      · exact ⟨c, [], text, sort c List.mem_cons_self⟩
      · exact ⟨c, [d], text, sort c List.mem_cons_self⟩
  | number whole fraction =>
      obtain ⟨some, digits, -⟩ := valid
      obtain ⟨c, more, rfl⟩ := List.exists_cons_of_ne_nil some
      rw [List.all_cons, Bool.and_eq_true] at digits
      exact ⟨c, more ++ pointed fraction, chars_number _ _, initial_of_isDigit digits.1⟩
  | string contents => exact ⟨'"', _, chars_string contents, rfl⟩
  | endOfInput => exact valid.elim

/-- A lexeme in front of a text has its sort from the first character there. -/
theorem TokenKind.Valid.front {kind : TokenKind} (valid : kind.Valid) {c : Char}
    {rest : List Char} (front : kind.chars <+: c :: rest) :
    kind.initial = TernLang.initial c ∧ ∃ more, kind.chars = c :: more ∧ more <+: rest := by
  obtain ⟨first, more, chars, sort⟩ := valid.first
  rw [chars, List.cons_prefix_cons] at front
  obtain ⟨rfl, inside⟩ := front
  exact ⟨sort.symm, more, chars, inside⟩

/-! ## Lexemes of one sort -/

theorem TokenKind.eq_symbol {kind : TokenKind} (sort : kind.initial = .symbol) :
    ∃ s, kind = .symbol s := by
  cases kind with
  | symbol s => exact ⟨s, rfl⟩
  | _ => cases sort

theorem TokenKind.eq_number {kind : TokenKind} (sort : kind.initial = .digit) :
    ∃ whole fraction, kind = .number whole fraction := by
  cases kind with
  | number whole fraction => exact ⟨whole, fraction, rfl⟩
  | _ => cases sort

theorem TokenKind.eq_string {kind : TokenKind} (sort : kind.initial = .quote) :
    ∃ contents, kind = .string contents := by
  cases kind with
  | string contents => exact ⟨contents, rfl⟩
  | _ => cases sort

/-- Every valid token begins with a character that tokens can begin with. -/
theorem TokenKind.Valid.initial_ne_none {kind : TokenKind} (valid : kind.Valid) :
    kind.initial ≠ .none := by
  cases kind with
  | endOfInput => exact valid.elim
  | _ => exact nofun

theorem Symbol.text_injective {s s' : Symbol} (same : s.text.toList = s'.text.toList) :
    s = s' := by
  rcases s.text_cases with ⟨c, text, found⟩ | ⟨c, d, text, found, -⟩ <;>
    rcases s'.text_cases with ⟨c', text', found'⟩ | ⟨c', d', text', found', -⟩ <;>
    rw [text, text'] at same <;> cases same
  · exact Option.some.inj (found.symm.trans found')
  · exact Option.some.inj (found.symm.trans found')

theorem pointed_injective {fraction fraction' : List Char}
    (same : pointed fraction = pointed fraction') : fraction = fraction' := by
  cases fraction with
  | nil =>
      cases fraction' with
      | nil => rfl
      | cons d rest => cases same
  | cons d rest =>
      cases fraction' with
      | nil => cases same
      | cons d' rest' => exact List.tail_eq_of_cons_eq same

theorem stops_pointed (fraction : List Char) : Stops Char.isDigit (pointed fraction) := by
  cases fraction with
  | nil => exact stops_nil
  | cons d rest => exact stops_cons.mpr rfl

/-- The digits in front of the point are the longest run of digits. -/
theorem number_injective {whole fraction whole' fraction' : List Char}
    (digits : whole.all Char.isDigit = true) (digits' : whole'.all Char.isDigit = true)
    (same : whole ++ pointed fraction = whole' ++ pointed fraction') :
    whole = whole' ∧ fraction = fraction' := by
  have front := takeWhile_run digits (stops_pointed fraction)
  have back := dropWhile_run digits (stops_pointed fraction)
  rw [same, takeWhile_run digits' (stops_pointed fraction')] at front
  rw [same, dropWhile_run digits' (stops_pointed fraction')] at back
  exact ⟨front.symm, (pointed_injective back).symm⟩

/-- Nothing comes behind the closing quote of a string. -/
theorem string_closed {contents contents' more : List Char} (inside : '"' ∉ contents)
    (inside' : '"' ∉ contents') (same : contents ++ '"' :: more = contents' ++ ['"']) :
    more = [] := by
  have stops (behind : List Char) : Stops (· != '"') ('"' :: behind) := stops_cons.mpr rfl
  have back := dropWhile_run (all_bne inside) (stops more)
  rw [same, dropWhile_run (all_bne inside') (stops [])] at back
  exact (List.tail_eq_of_cons_eq back).symm

/-- **A lexeme stands for tokens of one kind only.** -/
theorem chars_injective {kind other : TokenKind} (valid : kind.Valid) (valid' : other.Valid)
    (same : kind.chars = other.chars) : kind = other := by
  obtain ⟨c, more, chars, sort⟩ := valid.first
  have chars' : other.chars = c :: more := same.symm.trans chars
  have sort' := (valid'.front ⟨[], (List.append_nil _).trans chars'⟩).1.trans sort
  cases here : kind.initial with
  | letter =>
      rw [← (valid.word here).2, ← (valid'.word (sort'.trans here)).2, same]
  | symbol =>
      obtain ⟨s, rfl⟩ := kind.eq_symbol here
      obtain ⟨s', rfl⟩ := other.eq_symbol (sort'.trans here)
      exact congrArg TokenKind.symbol (Symbol.text_injective same)
  | digit =>
      obtain ⟨whole, fraction, rfl⟩ := kind.eq_number here
      obtain ⟨whole', fraction', rfl⟩ := other.eq_number (sort'.trans here)
      rw [chars_number, chars_number] at same
      obtain ⟨rfl, rfl⟩ := number_injective valid.2.1 valid'.2.1 same
      rfl
  | quote =>
      obtain ⟨contents, rfl⟩ := kind.eq_string here
      obtain ⟨contents', rfl⟩ := other.eq_string (sort'.trans here)
      rw [chars_string, chars_string, List.cons_inj_right, List.append_left_inj] at same
      exact congrArg TokenKind.string (String.toList_injective same)
  | none => exact absurd here valid.initial_ne_none

/-! ## White space -/

theorem not_isBlank_of_isNameChar {c : Char} (name : isNameChar c = true) : ¬ IsBlank c := by
  intro blank
  rcases blank.cases with rfl | rfl | rfl | rfl | rfl | rfl <;> cases name

theorem not_isBlank_of_isDigit {c : Char} (digit : c.isDigit = true) : ¬ IsBlank c := by
  intro blank
  have none := blank.initial_eq
  rw [initial_of_isDigit digit] at none
  cases none

/-- **Only strings hold white space.** -/
theorem not_isBlank {kind : TokenKind} (valid : kind.Valid) (code : kind.initial ≠ .quote) :
    ∀ c ∈ kind.chars, ¬ IsBlank c := by
  cases here : kind.initial with
  | letter =>
      have run := List.all_eq_true.mp (all_isNameChar_of_isWord (valid.word here).1)
      exact fun c mem => not_isBlank_of_isNameChar (run c mem)
  | symbol =>
      obtain ⟨s, rfl⟩ := kind.eq_symbol here
      intro c mem blank
      have none := blank.initial_eq
      rw [s.initial_eq c mem] at none
      cases none
  | digit =>
      obtain ⟨whole, fraction, rfl⟩ := kind.eq_number here
      obtain ⟨-, digits, digits'⟩ := valid
      rw [chars_number]
      intro c mem
      rcases List.mem_append.mp mem with before | after
      · exact not_isBlank_of_isDigit (List.all_eq_true.mp digits c before)
      · cases fraction with
        | nil => cases after
        | cons d rest =>
            rcases List.mem_cons.mp after with rfl | behind
            · decide
            · exact not_isBlank_of_isDigit (List.all_eq_true.mp digits' c behind)
  | quote => exact absurd here code
  | none => exact absurd here valid.initial_ne_none

end TernLang
