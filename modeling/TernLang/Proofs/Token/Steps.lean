import TernLang.Proofs.Token.Lexemes

/-! # What a step takes

A step takes a gap, or else **the longest token in front of the text**
(`munches_lexStep`), and it is stuck only where neither a token nor a gap starts
(`Stuck`). For each sort of tokens this is shown by itself: a token of another sort has
another first character.
-/

namespace TernLang

/-- The longest token in front of the text is of the kind, and `rest` comes behind it. -/
structure TokenKind.LongestIn (kind : TokenKind) (text rest : List Char) : Prop where
  valid : kind.Valid
  text_eq : text = kind.chars ++ rest
  longest : ∀ other : TokenKind, other.Valid → other.chars <+: text →
    other.chars.length ≤ kind.chars.length

/-- `IsGap piece rest`: in front of `rest`, the piece is one character of white space, or
a comment, which runs up to the end of the line or of the text. -/
inductive IsGap : List Char → List Char → Prop
  | blank {c : Char} {rest : List Char} : IsBlank c → IsGap [c] rest
  | comment {text rest : List Char} : '\n' ∉ text → (∀ c ∈ rest.head?, c = '\n') →
      IsGap ('/' :: '/' :: text) rest

/-- No gap is in front of the text. -/
def NoGap (text : List Char) : Prop :=
  ∀ piece rest, IsGap piece rest → text ≠ piece ++ rest

/-- No piece of a text starts here: a quote has no partner, or neither a token nor a gap
nor a string starts with this character. -/
inductive Stuck : List Char → LexError.Cause → Prop
  | unterminated {rest : List Char} : '"' ∉ rest → Stuck ('"' :: rest) .unterminatedString
  | unexpected {c : Char} {rest : List Char} :
      (∀ kind : TokenKind, kind.Valid → ¬ kind.chars <+: c :: rest) → NoGap (c :: rest) →
      c ≠ '"' → Stuck (c :: rest) (.unexpected c)

/-- The step takes the longest token, with the line feeds in it. If it is stuck, then
there is none. -/
def LexStep.Munches (text : List Char) : LexStep → Prop
  | .gap _ _ => False
  | .token kind lineFeeds rest => kind.LongestIn text rest ∧ lineFeeds = kind.chars.count '\n'
  | .stuck cause => NoGap text → Stuck text cause

variable {c : Char} {rest : List Char}

/-- A longest token, read with its line feeds counted, is what a step is to read. -/
theorem munches_token {kind : TokenKind} {text rest : List Char} {lineFeeds : Nat}
    (longest : kind.LongestIn text rest) (counted : kind.chars.count '\n' = lineFeeds) :
    (LexStep.token kind lineFeeds rest).Munches text :=
  ⟨longest, counted.symm⟩

/-! ## Each sort of tokens -/

theorem count_lineFeed {kind : TokenKind} (valid : kind.Valid) (sort : kind.initial ≠ .quote) :
    kind.chars.count '\n' = 0 :=
  List.count_eq_zero.mpr fun mem => not_isBlank valid sort _ mem (.inr rfl)

/-- The fraction that is taken is the longest one. -/
theorem lexFraction_spec (text : List Char) :
    text = pointed (lexFraction text).1 ++ (lexFraction text).2 ∧
      (lexFraction text).1.all Char.isDigit = true ∧
      ∀ fraction : List Char, fraction.all Char.isDigit = true → pointed fraction <+: text →
        (pointed fraction).length ≤ (pointed (lexFraction text).1).length := by
  unfold lexFraction
  split
  · rename_i digit rest
    by_cases isDigit : digit.isDigit = true
    · rw [if_pos isDigit]
      refine ⟨?_, ?_, ?_⟩
      · show _ = '.' :: digit :: (_ ++ _)
        rw [List.takeWhile_append_dropWhile]
      · simp [isDigit]
      · intro fraction digits front
        cases fraction with
        | nil => exact Nat.zero_le _
        | cons d more =>
            simp only [pointed, List.cons_prefix_cons, true_and] at front
            rw [List.all_cons, Bool.and_eq_true] at digits
            -- the digits that are taken are the longest run of digits
            have longest := (prefix_takeWhile digits.2 front.2).length_le
            exact Nat.succ_le_succ (Nat.succ_le_succ longest)
    · rw [if_neg isDigit]
      refine ⟨rfl, rfl, ?_⟩
      intro fraction digits front
      cases fraction with
      | nil => exact Nat.le_refl _
      | cons d more =>
          simp only [pointed, List.cons_prefix_cons, true_and] at front
          rw [List.all_cons, Bool.and_eq_true, front.1] at digits
          exact absurd digits.1 isDigit
  · rename_i noPoint
    refine ⟨rfl, rfl, ?_⟩
    intro fraction digits front
    cases fraction with
    | nil => exact Nat.le_refl _
    | cons d more =>
        obtain ⟨behind, rfl⟩ := front
        exact (noPoint d (more ++ behind) rfl).elim

/-- A number is as long as the digits go. -/
theorem munches_number (digit : c.isDigit = true) : (lexNumber c rest).Munches (c :: rest) := by
  obtain ⟨parts, digits, longest⟩ := lexFraction_spec (rest.dropWhile Char.isDigit)
  have whole : c :: rest.takeWhile Char.isDigit = (c :: rest).takeWhile Char.isDigit :=
    (List.takeWhile_cons_of_pos digit).symm
  have after : rest.dropWhile Char.isDigit = (c :: rest).dropWhile Char.isDigit :=
    (List.dropWhile_cons_of_pos digit).symm
  rw [after] at parts digits longest
  unfold lexNumber
  rw [whole, after]
  generalize lexFraction ((c :: rest).dropWhile Char.isDigit) = taken at parts digits longest
  obtain ⟨fraction, remaining⟩ := taken
  have valid : (TokenKind.number ((c :: rest).takeWhile Char.isDigit) fraction).Valid :=
    ⟨by rw [← whole]; exact List.cons_ne_nil _ _, List.all_takeWhile, digits⟩
  refine munches_token ⟨valid, ?_, ?_⟩ (count_lineFeed valid nofun)
  · rw [chars_number, List.append_assoc, ← parts, List.takeWhile_append_dropWhile]
  · intro other valid' front
    obtain ⟨w, f, rfl⟩ := other.eq_number
      ((valid'.front front).1.trans (initial_of_isDigit digit))
    obtain ⟨behind, text⟩ := front
    rw [chars_number] at text ⊢
    rw [chars_number, List.length_append, List.length_append]
    cases f with
    | nil =>
        have inside : w <+: c :: rest := ⟨behind, by rw [← text, pointed, List.append_nil]⟩
        have run := prefix_takeWhile valid'.2.1 inside
        exact Nat.add_le_add run.length_le (Nat.zero_le _)
    | cons d more =>
        -- the point ends the digits, so both numbers have it at the same place
        have stops : Stops Char.isDigit (pointed (d :: more) ++ behind) := stops_cons.mpr rfl
        rw [List.append_assoc] at text
        have same := takeWhile_run valid'.2.1 stops
        have left := dropWhile_run valid'.2.1 stops
        rw [text] at same left
        have within := longest (d :: more) valid'.2.2 (left ▸ List.prefix_append _ _)
        rw [same]
        exact Nat.add_le_add_left within _

/-- A string is as long as there is no quote. -/
theorem munches_string : (lexString rest).Munches ('"' :: rest) := by
  unfold lexString
  dsimp only
  cases closing : rest.dropWhile (· != '"') with
  | nil =>
      intro _
      refine .unterminated fun mem => ?_
      -- no quote closes the string
      have differ := List.dropWhile_eq_nil_iff.mp closing '"' mem
      simp at differ
  | cons quote remaining =>
      have stopped := stops_dropWhile (· != '"') rest
      rw [closing, stops_cons, bne_eq_false_iff_eq] at stopped
      subst stopped
      have parts : rest = rest.takeWhile (· != '"') ++ '"' :: remaining := by
        rw [← closing, List.takeWhile_append_dropWhile]
      refine munches_token ⟨?_, ?_, ?_⟩ ?_
      · intro mem
        rw [String.toList_ofList] at mem
        have differ := List.mem_takeWhile_imp mem
        simp at differ
      · rw [chars_string, String.toList_ofList]
        simpa using parts
      · intro other valid front
        -- any other token here is a string as well, and ends at the same quote
        obtain ⟨contents, rfl⟩ := other.eq_string (valid.front front).1
        rw [chars_string, List.cons_prefix_cons] at front
        obtain ⟨-, behind, text⟩ := front
        have stops : Stops (· != '"') ('"' :: behind) := stops_cons.mpr rfl
        have same := takeWhile_run (all_bne valid) stops
        rw [List.append_assoc] at text
        rw [chars_string, chars_string, String.toList_ofList, ← same, ← text]
        exact Nat.le_refl _
      · rw [chars_string, String.toList_ofList]
        simp

/-- A name is as long as its characters go. -/
theorem munches_word (start : isNameStart c = true) :
    (LexStep.token (wordKind (c :: rest.takeWhile isNameChar)) 0
      (rest.dropWhile isNameChar)).Munches (c :: rest) := by
  have word : isWord (c :: rest.takeWhile isNameChar) = true := by simp [isWord, start]
  obtain ⟨valid, chars⟩ := valid_wordKind word
  have front : (wordKind (c :: rest.takeWhile isNameChar)).chars <+: c :: rest := by
    rw [chars, List.cons_prefix_cons]
    exact ⟨rfl, List.takeWhile_prefix _⟩
  have letter : (wordKind (c :: rest.takeWhile isNameChar)).initial = .letter :=
    (valid.front front).1.trans (initial_of_isNameStart start)
  have code : (wordKind (c :: rest.takeWhile isNameChar)).initial ≠ .quote := by
    rw [letter]
    decide
  refine munches_token ⟨valid, ?_, ?_⟩ (count_lineFeed valid code)
  · rw [chars, List.cons_append, List.takeWhile_append_dropWhile]
  · intro other valid' front'
    obtain ⟨sort, more, chars', inside⟩ := valid'.front front'
    have spelled := (valid'.word (sort.trans (initial_of_isNameStart start))).1
    rw [chars', isWord, Bool.and_eq_true] at spelled
    rw [chars, chars']
    exact Nat.succ_le_succ (prefix_takeWhile spelled.2 inside).length_le

theorem Symbol.length_text_le (s : Symbol) : s.text.toList.length ≤ 2 := by
  cases s <;> decide

/-- A symbol in front of a text that starts with none of the other sorts. -/
theorem longestIn_symbol {s : Symbol} {text remaining : List Char}
    (parts : text = s.text.toList ++ remaining)
    (longest : ∀ other : Symbol, other.text.toList <+: text →
      other.text.toList.length ≤ s.text.toList.length) :
    (TokenKind.symbol s).LongestIn text remaining := by
  have valid : (TokenKind.symbol s).Valid := trivial
  obtain ⟨first, more, chars, sort⟩ := valid.first
  have start : text = first :: (more ++ remaining) := parts.trans (congrArg (· ++ remaining) chars)
  refine ⟨valid, parts, fun other valid' front => ?_⟩
  rw [start] at front
  obtain ⟨found, rfl⟩ := other.eq_symbol ((valid'.front front).1.trans sort)
  rw [← start] at front
  exact longest found front

theorem ofChar?_of_initial (sort : initial c = .symbol) : (Symbol.ofChar? c).isSome := by
  unfold initial at sort
  split_ifs at sort
  assumption

/-- Where no symbol starts and no other sort of tokens, the text goes on nowhere. -/
theorem stuck_of_initial (sort : initial c = .symbol ∨ initial c = .none)
    (none : Symbol.ofChar? c = none) (noGap : NoGap (c :: rest)) :
    Stuck (c :: rest) (.unexpected c) := by
  have nothing : initial c = .none := by
    rcases sort with symbol | nothing
    · have some := ofChar?_of_initial symbol
      rw [none] at some
      cases some
    · exact nothing
  refine .unexpected (fun kind valid front => ?_) noGap ?_
  · exact valid.initial_ne_none ((valid.front front).1.trans nothing)
  · rintro rfl
    cases nothing

/-- A symbol has two characters where they make a pair. -/
theorem munches_symbol (sort : initial c = .symbol ∨ initial c = .none) :
    (lexSymbol c rest).Munches (c :: rest) := by
  -- without a pair, a symbol in front of the text has one character
  have single (s : Symbol) (found : Symbol.ofChar? c = some s)
      (alone : ∀ d ∈ rest.head?, Symbol.ofPair? c d = none) :
      (LexStep.token (.symbol s) 0 rest).Munches (c :: rest) := by
    have text := Symbol.text_of_ofChar? found
    refine munches_token (longestIn_symbol (by rw [text]; rfl) fun other front => ?_)
      (count_lineFeed trivial nofun)
    rcases other.text_cases with ⟨c', text', -⟩ | ⟨c', d', text', pair, -⟩
    · rw [text, text']
      exact Nat.le_refl _
    · rw [text', List.cons_prefix_cons] at front
      obtain ⟨rfl, more, rfl⟩ := front
      rw [alone d' rfl] at pair
      cases pair
  unfold lexSymbol
  dsimp only
  cases rest with
  | nil =>
      cases found : Symbol.ofChar? c with
      | none => exact stuck_of_initial sort found
      | some s => exact single s found nofun
  | cons next remaining =>
      dsimp only
      cases pair : Symbol.ofPair? c next with
      | some s =>
          have text := Symbol.text_of_ofPair? pair
          refine munches_token (longestIn_symbol (by rw [text]; rfl) fun other _ => ?_)
            (count_lineFeed trivial nofun)
          rw [text]
          exact other.length_text_le
      | none =>
          cases found : Symbol.ofChar? c with
          | none => exact stuck_of_initial sort found
          | some s => exact single s found (by simpa using pair)

/-! ## The step -/

/-- What a step does where no gap starts. -/
theorem lexStep_of_ink (ink : ¬ IsBlank c) (code : ¬ (c = '/' ∧ rest.head? = some '/')) :
    lexStep c rest =
      match initial c with
      | .digit => lexNumber c rest
      | .quote => lexString rest
      | .letter => .token (wordKind (c :: rest.takeWhile isNameChar)) 0 (rest.dropWhile isNameChar)
      | .symbol | .none => lexSymbol c rest := by
  rw [IsBlank, not_or] at ink
  have comment : ¬ (c == '/' && rest.head? == some '/') = true := by
    rwa [Bool.and_eq_true, beq_iff_eq, beq_iff_eq]
  unfold lexStep initial
  rw [if_neg (by simpa using ink.2), if_neg ink.1, if_neg comment]
  by_cases digit : c.isDigit = true
  · rw [if_pos digit, if_pos digit]
  · rw [if_neg digit, if_neg digit]
    by_cases quote : (c == '"') = true
    · rw [if_pos quote, if_pos quote]
    · rw [if_neg quote, if_neg quote]
      by_cases start : isNameStart c = true
      · rw [if_pos start, if_pos start]
      · rw [if_neg start, if_neg start]
        cases (Symbol.ofChar? c).isSome <;> rfl

theorem initial_eq_digit (sort : initial c = .digit) : c.isDigit = true := by
  unfold initial at sort
  split_ifs at sort
  assumption

theorem initial_eq_quote (sort : initial c = .quote) : c = '"' := by
  unfold initial at sort
  split_ifs at sort with _ quote
  exact beq_iff_eq.mp quote

theorem initial_eq_letter (sort : initial c = .letter) : isNameStart c = true := by
  unfold initial at sort
  split_ifs at sort
  assumption

/-- **Where no gap starts, a step takes the longest token**, or there is none. -/
theorem munches_lexStep (ink : ¬ IsBlank c) (code : ¬ (c = '/' ∧ rest.head? = some '/')) :
    (lexStep c rest).Munches (c :: rest) := by
  rw [lexStep_of_ink ink code]
  cases sort : initial c with
  | digit => exact munches_number (initial_eq_digit sort)
  | quote =>
      obtain rfl := initial_eq_quote sort
      exact munches_string
  | letter => exact munches_word (initial_eq_letter sort)
  | symbol => exact munches_symbol (.inl sort)
  | none => exact munches_symbol (.inr sort)

end TernLang
