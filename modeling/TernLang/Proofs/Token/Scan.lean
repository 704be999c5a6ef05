import TernLang.Proofs.Token.Steps

/-! # Splitting a text piece by piece

`lexAt line text` splits a text whose first character is on a line. **What is in front
determines how it goes on**: after a gap and after the longest token it splits the rest
on the line that is reached there, and where the text is stuck it ends (`lexAt_gap`,
`lexAt_token`, `lexAt_stuck`). Every text starts with one of these (`exists_piece`).
-/

namespace TernLang

/-- Splits a text whose first character is on a line. -/
def lexAt (line : Nat) (text : List Char) : Lexed :=
  lexFrom text.length line text

variable {c : Char} {rest : List Char}

/-! ## One step -/

/-- What a step leaves is part of what came behind the first character. -/
def LexStep.Shortens (rest : List Char) : LexStep → Prop
  | .gap _ remaining | .token _ _ remaining => remaining.length ≤ rest.length
  | .stuck _ => True

theorem LexStep.Munches.shortens {step : LexStep} (munches : step.Munches (c :: rest)) :
    step.Shortens rest := by
  cases step with
  | gap lineFeeds remaining => exact munches.elim
  | stuck cause => trivial
  | token kind lineFeeds remaining =>
      obtain ⟨longest, -⟩ := munches
      obtain ⟨first, more, chars, -⟩ := longest.valid.first
      have parts := congrArg List.length longest.text_eq
      rw [chars, List.length_append, List.length_cons, List.length_cons] at parts
      show remaining.length ≤ rest.length
      omega

theorem lexStep_lineFeed (rest : List Char) : lexStep '\n' rest = .gap 1 rest := rfl

theorem lexStep_space (space : isSpace c = true) :
    lexStep c rest = .gap 0 (rest.dropWhile isSpace) := by
  have feed : ¬ (c == '\n') = true := by
    rw [beq_iff_eq]
    rintro rfl
    cases space
  unfold lexStep
  rw [if_neg feed, if_pos space]

theorem lexStep_comment (slash : rest.head? = some '/') :
    lexStep '/' rest = .gap 0 (rest.dropWhile (· != '\n')) := by
  unfold lexStep
  rw [if_neg (by decide), if_neg (by decide), if_pos (by simp [slash])]

/-- Every step that goes on reads at least one character. -/
theorem lexStep_shortens (c : Char) (rest : List Char) : (lexStep c rest).Shortens rest := by
  by_cases blank : IsBlank c
  · rcases blank with space | rfl
    · rw [lexStep_space space]
      exact (List.dropWhile_suffix isSpace).length_le
    · exact Nat.le_refl rest.length
  · by_cases code : c = '/' ∧ rest.head? = some '/'
    · obtain ⟨rfl, slash⟩ := code
      rw [lexStep_comment slash]
      exact (List.dropWhile_suffix (· != '\n')).length_le
    · exact (munches_lexStep blank code).shortens

/-- More fuel than there are characters makes no difference. -/
theorem lexFrom_fuel {fuel fuel' line : Nat} {text : List Char} (enough : text.length ≤ fuel)
    (enough' : text.length ≤ fuel') : lexFrom fuel line text = lexFrom fuel' line text := by
  induction fuel generalizing line text fuel' with
  | zero =>
      obtain rfl := List.eq_nil_of_length_eq_zero (Nat.le_zero.mp enough)
      cases fuel' <;> rfl
  | succ fuel ih =>
      cases text with
      | nil => cases fuel' <;> rfl
      | cons c rest =>
          cases fuel' with
          | zero => cases enough'
          | succ fuel' =>
              have shorter := lexStep_shortens c rest
              -- both take the same step, and it leaves a shorter text
              have again {remaining : List Char} (left : remaining.length ≤ rest.length)
                  (line : Nat) : lexFrom fuel line remaining = lexFrom fuel' line remaining :=
                ih (Nat.le_trans left (Nat.le_of_succ_le_succ enough))
                  (Nat.le_trans left (Nat.le_of_succ_le_succ enough'))
              unfold lexFrom
              cases step : lexStep c rest with
              | stuck cause => rfl
              | gap lineFeeds remaining =>
                  rw [step] at shorter
                  exact again shorter _
              | token kind lineFeeds remaining =>
                  rw [step] at shorter
                  exact congrArg (Lexed.push _) (again shorter _)

/-- With fuel for every character the scanner reads to the end of the text. -/
theorem lexFrom_eq_lexAt {fuel line : Nat} {text : List Char} (enough : text.length ≤ fuel) :
    lexFrom fuel line text = lexAt line text :=
  lexFrom_fuel enough (Nat.le_refl _)

theorem lexAt_nil (line : Nat) : lexAt line [] = ⟨[⟨.endOfInput, line⟩], none⟩ := rfl

theorem lexAt_cons (line : Nat) (c : Char) (rest : List Char) :
    lexAt line (c :: rest) =
      match lexStep c rest with
      | .gap lineFeeds remaining => lexAt (line + lineFeeds) remaining
      | .token kind lineFeeds remaining => (lexAt (line + lineFeeds) remaining).push ⟨kind, line⟩
      | .stuck cause => ⟨[], some ⟨cause, line⟩⟩ := by
  have shorter := lexStep_shortens c rest
  show lexFrom (rest.length + 1) line (c :: rest) = _
  unfold lexFrom
  cases step : lexStep c rest with
  | stuck cause => rfl
  | gap lineFeeds remaining =>
      rw [step] at shorter
      exact lexFrom_eq_lexAt shorter
  | token kind lineFeeds remaining =>
      rw [step] at shorter
      exact congrArg (Lexed.push _) (lexFrom_eq_lexAt shorter)

/-! ## Pieces -/

theorem lexAt_space (line : Nat) (space : isSpace c = true) :
    lexAt line (c :: rest) = lexAt line (rest.dropWhile isSpace) := by
  rw [lexAt_cons, lexStep_space space]
  rfl

/-- White space is skipped one character after the other. -/
theorem lexAt_blank (line : Nat) (blank : IsBlank c) :
    lexAt line (c :: rest) = lexAt (line + [c].count '\n') rest := by
  rcases blank with space | rfl
  · have same : [c].count '\n' = 0 := by
      rw [List.count_singleton, if_neg]
      rw [beq_iff_eq]
      rintro rfl
      cases space
    rw [lexAt_space line space, same]
    cases rest with
    | nil => rfl
    | cons d more =>
        by_cases again : isSpace d = true
        · rw [List.dropWhile_cons_of_pos again, Nat.add_zero, lexAt_space line again]
        · rw [List.dropWhile_cons_of_neg again, Nat.add_zero]
  · rw [lexAt_cons, lexStep_lineFeed]
    rfl

/-- A comment has no line feed. -/
theorem count_comment {text : List Char} (inside : '\n' ∉ text) :
    ('/' :: '/' :: text).count '\n' = 0 := by
  rw [List.count_eq_zero]
  simpa using inside

/-- A gap is skipped. -/
theorem lexAt_gap (line : Nat) {piece rest : List Char} (gap : IsGap piece rest) :
    lexAt line (piece ++ rest) = lexAt (line + piece.count '\n') rest := by
  cases gap with
  | blank blank => exact lexAt_blank line blank
  | @comment text _ inside after =>
      have run : ('/' :: text).all (· != '\n') = true := all_bne (by simpa using inside)
      have stops : Stops (· != '\n') rest := by
        intro c mem
        rw [after c mem]
        rfl
      rw [count_comment inside, List.cons_append, lexAt_cons, lexStep_comment rfl,
        dropWhile_run run stops]

theorem noGap_iff : NoGap (c :: rest) ↔ ¬ IsBlank c ∧ ¬ (c = '/' ∧ rest.head? = some '/') := by
  constructor
  · intro noGap
    refine ⟨fun blank => noGap [c] rest (.blank blank) rfl, ?_⟩
    rintro ⟨rfl, slash⟩
    obtain ⟨more, rfl⟩ := List.head?_eq_some_iff.mp slash
    refine noGap ('/' :: '/' :: more.takeWhile (· != '\n')) (more.dropWhile (· != '\n')) ?_ ?_
    · refine .comment (fun mem => ?_) fun c mem => ?_
      · have differ := List.mem_takeWhile_imp mem
        simp at differ
      · have stopped := stops_dropWhile (· != '\n') more c mem
        exact bne_eq_false_iff_eq.mp stopped
    · rw [List.cons_append, List.cons_append, List.takeWhile_append_dropWhile]
  · rintro ⟨ink, code⟩ piece more gap same
    cases gap with
    | blank blank =>
        cases same
        exact ink blank
    | comment _ _ =>
        cases same
        exact code ⟨rfl, rfl⟩

/-- Where no gap begins, a step reads the longest token or fails. -/
theorem munches_of_noGap (noGap : NoGap (c :: rest)) : (lexStep c rest).Munches (c :: rest) := by
  obtain ⟨ink, code⟩ := noGap_iff.mp noGap
  exact munches_lexStep ink code

/-- The longest token is the only one. -/
theorem TokenKind.LongestIn.unique {kind other : TokenKind} {text rest rest' : List Char}
    (longest : kind.LongestIn text rest) (longest' : other.LongestIn text rest') :
    kind = other ∧ rest = rest' := by
  have front := longest.longest other longest'.valid ⟨rest', longest'.text_eq.symm⟩
  have front' := longest'.longest kind longest.valid ⟨rest, longest.text_eq.symm⟩
  obtain ⟨chars, rests⟩ := List.append_inj (longest.text_eq.symm.trans longest'.text_eq)
    (Nat.le_antisymm front' front)
  exact ⟨chars_injective longest.valid longest'.valid chars, rests⟩

/-- A token starts with no white space. -/
theorem TokenKind.Valid.not_isBlank_first {kind : TokenKind} (valid : kind.Valid)
    (front : kind.chars <+: c :: rest) : ¬ IsBlank c := by
  intro blank
  exact valid.initial_ne_none ((valid.front front).1.trans blank.initial_eq)

/-- Where the text is stuck there is no token in front. -/
theorem Stuck.not_longestIn {text remaining : List Char} {cause : LexError.Cause}
    (stuck : Stuck text cause) {kind : TokenKind} : ¬ kind.LongestIn text remaining := by
  intro longest
  have front : kind.chars <+: text := ⟨remaining, longest.text_eq.symm⟩
  cases stuck with
  | unexpected nothing _ _ => exact nothing kind longest.valid front
  | unterminated open' =>
      obtain ⟨contents, rfl⟩ := kind.eq_string (longest.valid.front front).1
      have parts := longest.text_eq
      rw [chars_string, List.cons_append] at parts
      rw [List.tail_eq_of_cons_eq parts] at open'
      simp at open'

/-- No gap starts where a token does. -/
theorem TokenKind.LongestIn.noGap {kind : TokenKind} {text rest : List Char}
    (longest : kind.LongestIn text rest) (code : ¬ ['/', '/'] <+: text) : NoGap text := by
  obtain ⟨c, more, chars, -⟩ := longest.valid.first
  have start : text = c :: (more ++ rest) := by rw [longest.text_eq, chars, List.cons_append]
  subst start
  refine noGap_iff.mpr ⟨longest.valid.not_isBlank_first ⟨rest, longest.text_eq.symm⟩, ?_⟩
  rintro ⟨rfl, slash⟩
  obtain ⟨tail, same⟩ := List.head?_eq_some_iff.mp slash
  exact code ⟨tail, by rw [same]; rfl⟩

/-- The longest token is taken, if no comment starts there. -/
theorem lexAt_token (line : Nat) {kind : TokenKind} {text rest : List Char}
    (longest : kind.LongestIn text rest) (code : ¬ ['/', '/'] <+: text) :
    lexAt line text = (lexAt (line + kind.chars.count '\n') rest).push ⟨kind, line⟩ := by
  obtain ⟨c, more, chars, -⟩ := longest.valid.first
  have start : text = c :: (more ++ rest) := by rw [longest.text_eq, chars, List.cons_append]
  have noGap := longest.noGap code
  obtain ⟨ink, noComment⟩ := noGap_iff.mp (start ▸ noGap)
  have munches := munches_lexStep ink noComment
  rw [← start] at munches
  rw [start, lexAt_cons]
  cases step : lexStep c (more ++ rest) with
  | gap lineFeeds remaining =>
      rw [step] at munches
      exact munches.elim
  | stuck cause =>
      rw [step] at munches
      exact absurd longest (munches noGap).not_longestIn
  | token found lineFeeds remaining =>
      rw [step] at munches
      obtain ⟨longest', rfl⟩ := munches
      obtain ⟨rfl, rfl⟩ := longest.unique longest'
      rfl

theorem Stuck.noGap {text : List Char} {cause : LexError.Cause} (stuck : Stuck text cause) :
    NoGap text := by
  cases stuck with
  | unterminated _ => exact noGap_iff.mpr ⟨by decide, by simp⟩
  | unexpected _ noGap _ => exact noGap

/-- A text the scanner is stuck at has one cause. -/
theorem Stuck.unique {text : List Char} {cause cause' : LexError.Cause} (first : Stuck text cause)
    (second : Stuck text cause') : cause = cause' := by
  cases first with
  | unterminated _ =>
      cases second with
      | unterminated _ => rfl
      | unexpected _ _ differ => exact absurd rfl differ
  | unexpected _ _ differ =>
      cases second with
      | unterminated _ => exact absurd rfl differ
      | unexpected _ _ _ => rfl

/-- Where the text is stuck, splitting it ends. -/
theorem lexAt_stuck (line : Nat) {text : List Char} {cause : LexError.Cause}
    (stuck : Stuck text cause) : lexAt line text = ⟨[], some ⟨cause, line⟩⟩ := by
  cases text with
  | nil => cases stuck
  | cons c rest =>
      have munches := munches_of_noGap stuck.noGap
      rw [lexAt_cons]
      cases step : lexStep c rest with
      | gap lineFeeds remaining =>
          rw [step] at munches
          exact munches.elim
      | token kind lineFeeds remaining =>
          rw [step] at munches
          exact absurd munches.1 stuck.not_longestIn
      | stuck cause' =>
          rw [step] at munches
          rw [stuck.unique (munches stuck.noGap)]

/-- **In front of every text is a gap or a token, or the text is stuck.** -/
theorem exists_piece (c : Char) (rest : List Char) :
    (∃ piece remaining, IsGap piece remaining ∧ piece ≠ [] ∧ c :: rest = piece ++ remaining) ∨
    (∃ kind remaining, TokenKind.LongestIn kind (c :: rest) remaining ∧
      ¬ ['/', '/'] <+: c :: rest) ∨
    ∃ cause, Stuck (c :: rest) cause := by
  by_cases noGap : NoGap (c :: rest)
  · have munches := munches_of_noGap noGap
    cases step : lexStep c rest with
    | gap lineFeeds remaining =>
        rw [step] at munches
        exact munches.elim
    | token kind lineFeeds remaining =>
        rw [step] at munches
        refine .inr (.inl ⟨kind, remaining, munches.1, ?_⟩)
        rintro ⟨tail, same⟩
        cases same
        exact (noGap_iff.mp noGap).2 ⟨rfl, rfl⟩
    | stuck cause =>
        rw [step] at munches
        exact .inr (.inr ⟨cause, munches noGap⟩)
  · simp only [NoGap, ne_eq, not_forall, not_not, exists_prop] at noGap
    obtain ⟨piece, remaining, gap, parts⟩ := noGap
    refine .inl ⟨piece, remaining, gap, ?_, parts⟩
    cases gap <;> exact List.cons_ne_nil _ _

end TernLang
