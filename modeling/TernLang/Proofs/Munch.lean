import TernLang.Proofs.Token.Scan

/-! # Maximal munch

`Scans` splits a text from its front into gaps and tokens, where **every token is the
longest one that starts there** and a comment comes before any token. Splitting a text
does exactly this (`lex_munches`): it succeeds if the pieces make up the whole text, and
else it stops where neither a gap nor a token starts, with the tokens in front.
-/

namespace TernLang

/-- `Scans source before tokens`: the front `before` of the source is a row of gaps and
tokens, and these are the tokens, each on the line that is reached in front of it. -/
inductive Scans (source : List Char) : List Char → List Token → Prop
  | start : Scans source [] []
  | gap {before piece rest : List Char} {tokens : List Token} : Scans source before tokens →
      source = before ++ (piece ++ rest) → IsGap piece rest →
      Scans source (before ++ piece) tokens
  | token {before text rest : List Char} {tokens : List Token} {kind : TokenKind} :
      Scans source before tokens → source = before ++ text → kind.LongestIn text rest →
      ¬ ['/', '/'] <+: text →
      Scans source (before ++ kind.chars) (tokens ++ [⟨kind, 1 + before.count '\n'⟩])

namespace Scans

variable {source before rest : List Char} {tokens : List Token}

/-- What is in front of a position has the tokens that it says, and what comes behind is
split from the line that is reached. -/
theorem lexAt (scans : Scans source before tokens) (parts : source = before ++ rest) :
    lexAt 1 source =
      ⟨tokens ++ (TernLang.lexAt (1 + before.count '\n') rest).tokens,
        (TernLang.lexAt (1 + before.count '\n') rest).error?⟩ := by
  induction scans generalizing rest with
  | start =>
      cases parts
      rfl
  | @gap before piece rest' tokens _ here gap ih =>
      rw [List.append_assoc] at parts
      obtain rfl := List.append_cancel_left (List.append_cancel_left (here.symm.trans parts))
      rw [ih here, lexAt_gap _ gap, List.count_append, Nat.add_assoc]
  | @token before text rest' tokens kind _ here longest code ih =>
      rw [List.append_assoc] at parts
      have same := List.append_cancel_left (here.symm.trans parts)
      rw [longest.text_eq] at same
      obtain rfl := List.append_cancel_left same
      rw [ih here, lexAt_token _ longest code, List.count_append, Nat.add_assoc, List.append_assoc]
      rfl

/-- What was scanned is the front of the text. -/
theorem front (scans : Scans source before tokens) : before <+: source := by
  cases scans with
  | start => exact List.nil_prefix
  | @gap before piece rest _ _ here _ => exact ⟨rest, by rw [here, List.append_assoc]⟩
  | @token before text rest _ _ _ here longest _ =>
      exact ⟨rest, by rw [here, longest.text_eq, List.append_assoc]⟩

end Scans

/-- The longest token in front of a text is the longest one if the text is cut off behind
it. -/
theorem TokenKind.LongestIn.cut {kind : TokenKind} {text rest less : List Char}
    (longest : kind.LongestIn text rest) (shorter : less <+: rest) :
    kind.LongestIn (kind.chars ++ less) less := by
  refine ⟨longest.valid, rfl, fun other valid front => longest.longest other valid ?_⟩
  rw [longest.text_eq]
  exact front.trans ((List.prefix_append_right_inj _).mpr shorter)

/-- A gap in front of a text is a gap if the text is cut off behind it. -/
theorem IsGap.cut {piece rest less : List Char} (gap : IsGap piece rest) (shorter : less <+: rest) :
    IsGap piece less := by
  cases gap with
  | blank blank => exact .blank blank
  | comment inside after =>
      refine .comment inside fun c mem => after c ?_
      obtain ⟨tail, rfl⟩ := shorter
      obtain ⟨more, rfl⟩ := List.head?_eq_some_iff.mp mem
      rfl

/-- **What comes behind a position does not count in front of it.** -/
theorem Scans.cut {source before less : List Char} {tokens : List Token}
    (scans : Scans source before tokens) (inside : before <+: less) (front : less <+: source) :
    Scans less before tokens := by
  obtain ⟨behind, rfl⟩ := front
  induction scans with
  | start => exact .start
  | @gap before piece rest tokens _ here gap ih =>
      obtain ⟨more, rfl⟩ := inside
      have shorter : more <+: rest := by
        refine ⟨behind, ?_⟩
        simpa using here
      refine .gap (ih ⟨piece ++ more, by rw [List.append_assoc]⟩) ?_ (gap.cut shorter)
      rw [List.append_assoc]
  | @token before text rest tokens kind _ here longest code ih =>
      obtain ⟨more, rfl⟩ := inside
      have whole : kind.chars ++ (more ++ behind) = text := by simpa using here
      have shorter : more <+: rest := by
        refine ⟨behind, ?_⟩
        rw [longest.text_eq] at whole
        exact List.append_cancel_left whole
      refine .token (ih ⟨kind.chars ++ more, by rw [List.append_assoc]⟩) ?_ (longest.cut shorter) ?_
      · rw [List.append_assoc]
      · refine fun comment => code (comment.trans ?_)
        rw [← whole]
        exact (List.prefix_append_right_inj _).mpr (List.prefix_append _ _)

/-- From every position, the scan goes on to the end or to where it is stuck. -/
theorem Scans.exists_last {source : List Char} {before rest : List Char} {tokens : List Token}
    (scans : Scans source before tokens) (parts : source = before ++ rest) :
    ∃ before tokens rest, source = before ++ rest ∧ Scans source before tokens ∧
      (rest = [] ∨ ∃ cause, Stuck rest cause) := by
  induction length : rest.length using Nat.strongRecOn generalizing before rest tokens with
  | ind n ih =>
      cases rest with
      | nil => exact ⟨before, tokens, [], parts, scans, .inl rfl⟩
      | cons c more =>
          rcases exists_piece c more with
            ⟨piece, remaining, gap, some, front⟩ | ⟨kind, remaining, longest, code⟩ | stuck
          · have shorter := congrArg List.length front
            have least := List.length_pos_iff.mpr some
            rw [List.length_append] at shorter
            rw [front] at parts
            refine ih remaining.length (by omega) (scans.gap parts gap) ?_ rfl
            rw [parts, List.append_assoc]
          · have shorter := congrArg List.length longest.text_eq
            obtain ⟨first, others, chars, -⟩ := longest.valid.first
            have some : (first :: others).length = others.length + 1 := rfl
            rw [List.length_append, chars, some] at shorter
            refine ih remaining.length (by omega) (scans.token parts longest code) ?_ rfl
            rw [parts, longest.text_eq, List.append_assoc]
          · exact ⟨before, tokens, c :: more, parts, scans, .inr stuck⟩

/-- The scan of a text comes to its end or to where the text is stuck. -/
theorem exists_scan (source : List Char) :
    (∃ tokens, Scans source source tokens) ∨
      ∃ before rest tokens cause, source = before ++ rest ∧ Scans source before tokens ∧
        Stuck rest cause := by
  have begun : Scans source [] [] := .start
  obtain ⟨before, tokens, rest, parts, scans, rfl | ⟨cause, stuck⟩⟩ := begun.exists_last rfl
  · rw [List.append_nil] at parts
    exact .inl ⟨tokens, parts ▸ scans⟩
  · exact .inr ⟨before, rest, tokens, cause, parts, scans, stuck⟩

theorem lex_eq_lexAt (source : String) : lex source = lexAt 1 source.toList :=
  lexFrom_eq_lexAt (Nat.le_of_eq String.length_toList)

theorem lex_ofList (text : List Char) : lex (String.ofList text) = lexFrom text.length 1 text := by
  rw [lex, String.length_ofList, String.toList_ofList]

/-- A scan up to the end gives its tokens and the end of input on the last line. -/
theorem Scans.lex_end {source : List Char} {tokens : List Token}
    (scans : Scans source source tokens) :
    TernLang.lexAt 1 source = ⟨tokens ++ [⟨.endOfInput, 1 + source.count '\n'⟩], none⟩ :=
  scans.lexAt (List.append_nil source).symm

/-- A scan that is stuck gives its tokens and an error on the line where it is stuck. -/
theorem Scans.lex_stuck {source before rest : List Char} {tokens : List Token}
    {cause : LexError.Cause} (scans : Scans source before tokens) (parts : source = before ++ rest)
    (stuck : Stuck rest cause) :
    TernLang.lexAt 1 source = ⟨tokens, some ⟨cause, 1 + before.count '\n'⟩⟩ := by
  rw [scans.lexAt parts, lexAt_stuck _ stuck, List.append_nil]

/-- A text is split if its scan comes to the end. -/
theorem lex_eq_tokens_iff {source : String} {tokens : List Token} :
    lex source = ⟨tokens, none⟩ ↔
      ∃ body, Scans source.toList source.toList body ∧
        tokens = body ++ [⟨.endOfInput, 1 + source.toList.count '\n'⟩] := by
  rw [lex_eq_lexAt]
  constructor
  · intro split
    rcases exists_scan source.toList with ⟨body, scans⟩ | ⟨_, _, _, _, parts, scans, stuck⟩
    · rw [scans.lex_end] at split
      cases split
      exact ⟨body, scans, rfl⟩
    · rw [scans.lex_stuck parts stuck] at split
      cases split
  · rintro ⟨body, scans, rfl⟩
    exact scans.lex_end

/-- A text is not split if its scan gets stuck. -/
theorem lex_eq_error_iff {source : String} {tokens : List Token} {cause : LexError.Cause}
    {line : Nat} :
    lex source = ⟨tokens, some ⟨cause, line⟩⟩ ↔
      ∃ before rest, source.toList = before ++ rest ∧ Scans source.toList before tokens ∧
        Stuck rest cause ∧ line = 1 + before.count '\n' := by
  rw [lex_eq_lexAt]
  constructor
  · intro split
    rcases exists_scan source.toList with
      ⟨_, scans⟩ | ⟨before, rest, _, _, parts, scans, stuck⟩
    · rw [scans.lex_end] at split
      cases split
    · rw [scans.lex_stuck parts stuck] at split
      cases split
      exact ⟨before, rest, parts, scans, stuck, rfl⟩
  · rintro ⟨before, rest, parts, scans, stuck, rfl⟩
    exact scans.lex_stuck parts stuck

/-- **Splitting a text is maximal munch**. It succeeds with some tokens exactly if the
text is a row of gaps and of these tokens, each of them the longest one there and on the
line that is reached, with an end-of-input token on the last line. It fails exactly if
the scan comes to where the text is stuck, with the tokens up to there, on the line that
is reached there; and they are those of the text in front. What is the longest token in
front of a text is determined by the text. -/
theorem lex_munches (source : String) :
    (∀ tokens, lex source = ⟨tokens, none⟩ ↔
      ∃ body, Scans source.toList source.toList body ∧
        tokens = body ++ [⟨.endOfInput, 1 + source.toList.count '\n'⟩]) ∧
    (∀ tokens cause line, lex source = ⟨tokens, some ⟨cause, line⟩⟩ ↔
      ∃ before rest, source.toList = before ++ rest ∧ Scans source.toList before tokens ∧
        Stuck rest cause ∧ line = 1 + before.count '\n') ∧
    (∀ before tokens, Scans source.toList before tokens →
      lex (String.ofList before) = ⟨tokens ++ [⟨.endOfInput, 1 + before.count '\n'⟩], none⟩) ∧
    (∀ (kind other : TokenKind) (text rest rest' : List Char), kind.LongestIn text rest →
      other.LongestIn text rest' → kind = other ∧ rest = rest') := by
  refine ⟨fun _ => lex_eq_tokens_iff, fun _ _ _ => lex_eq_error_iff, ?_, ?_⟩
  · intro before tokens scans
    rw [lex_eq_lexAt, String.toList_ofList]
    exact (scans.cut List.prefix_rfl scans.front).lex_end
  · exact fun _ _ _ _ _ longest longest' => longest.unique longest'

/-- A text with a comment sign in quotes, a quote in a comment, and a stray character. -/
def quotedComments : String :=
  "s = \"//\n\"; // \"\n1.5.x++ @"

/-- The tokens in front of the stray character. -/
def quotedCommentsTokens : List Token :=
  [⟨.identifier "s", 1⟩, ⟨.symbol .equal, 1⟩, ⟨.string "//\n", 1⟩, ⟨.symbol .semicolon, 2⟩,
    ⟨.number ['1'] ['5'], 3⟩, ⟨.symbol .dot, 3⟩, ⟨.identifier "x", 3⟩, ⟨.symbol .plusPlus, 3⟩]

/-- The text in front of the stray character is split by itself as it is there. -/
theorem lex_munches_quotedComments :
    ∃ before rest, quotedComments.toList = before ++ rest ∧
      Scans quotedComments.toList before quotedCommentsTokens ∧ Stuck rest (.unexpected '@') ∧
      lex (String.ofList before) = ⟨quotedCommentsTokens ++ [⟨.endOfInput, 3⟩], none⟩ := by
  obtain ⟨-, fails, alone, -⟩ := lex_munches quotedComments
  have split : lex quotedComments = ⟨quotedCommentsTokens, some ⟨.unexpected '@', 3⟩⟩ := by
    decide +kernel
  obtain ⟨before, rest, parts, scans, stuck, line⟩ := (fails _ _ _).mp split
  refine ⟨before, rest, parts, scans, stuck, ?_⟩
  rw [alone before _ scans, ← line]

end TernLang
