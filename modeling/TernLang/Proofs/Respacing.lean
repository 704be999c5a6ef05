import TernLang.Proofs.Munch

/-! # Any spacing gives the same tokens

Tokens are rendered one after the other with a separator behind each, which starts with
white space and may go on with lines of comments. **Splitting the rendering gives the
tokens back**, each on the line on which it was written (`lex_render`). White space ends
every token: only a string could go on, and it has had its quote.
-/

namespace TernLang

/-- White space, and comments with the ends of their lines. -/
inductive IsFiller : List Char → Prop
  | nil : IsFiller []
  | blank {c : Char} {rest : List Char} : IsBlank c → IsFiller rest → IsFiller (c :: rest)
  | comment {text rest : List Char} : '\n' ∉ text → IsFiller rest →
      IsFiller ('/' :: '/' :: (text ++ '\n' :: rest))

/-- What may stand between two tokens. -/
inductive IsSeparator : List Char → Prop
  | mk {c : Char} {rest : List Char} : IsBlank c → IsFiller rest → IsSeparator (c :: rest)

/-- The lexemes of tokens, with separators behind them as long as there are any. -/
def render : List TokenKind → List (List Char) → List Char
  | kind :: kinds, separator :: separators =>
      kind.chars ++ (separator ++ render kinds separators)
  | kind :: _, [] => kind.chars
  | [], _ => []

/-! ## One token -/

/-- What fills the space between tokens only counts lines. -/
theorem lexAt_filler {filler : List Char} (isFiller : IsFiller filler) (line : Nat)
    (rest : List Char) :
    lexAt line (filler ++ rest) = lexAt (line + filler.count '\n') rest := by
  induction isFiller generalizing line with
  | nil => rfl
  | @blank c more blank _ ih =>
      have counted : (c :: more).count '\n' = [c].count '\n' + more.count '\n' :=
        @List.count_append _ _ '\n' [c] more
      rw [List.cons_append, lexAt_blank line blank, ih, counted, Nat.add_assoc]
  | @comment text more inside _ ih =>
      have gap : IsGap ('/' :: '/' :: text) ('\n' :: (more ++ rest)) :=
        .comment inside (by simp)
      have parts : ('/' :: '/' :: (text ++ '\n' :: more)) ++ rest =
          ('/' :: '/' :: text) ++ '\n' :: (more ++ rest) := by simp
      have counted : ('/' :: '/' :: (text ++ '\n' :: more)).count '\n' =
          ('/' :: '/' :: text).count '\n' + (['\n'].count '\n' + more.count '\n') := by
        rw [← List.count_append, ← List.count_append]
        rfl
      rw [parts, lexAt_gap line gap, lexAt_blank _ (.inr rfl), ih, counted, count_comment inside,
        Nat.add_zero, Nat.zero_add, Nat.add_assoc]

/-- **White space ends every token**, and so does the end of the text. -/
theorem longestIn_of_blank {kind : TokenKind} (valid : kind.Valid) {rest : List Char}
    (ends : ∀ c ∈ rest.head?, IsBlank c) : kind.LongestIn (kind.chars ++ rest) rest := by
  refine ⟨valid, rfl, fun other valid' front => ?_⟩
  by_contra longer
  -- a longer token goes on with white space, so both are strings
  have inside : kind.chars <+: other.chars :=
    List.prefix_of_prefix_length_le (List.prefix_append _ _) front (Nat.le_of_not_le longer)
  obtain ⟨more, chars⟩ := inside
  rw [← chars, List.prefix_append_right_inj] at front
  have some : more ≠ [] := by
    rintro rfl
    rw [← chars, List.append_nil] at longer
    exact longer (Nat.le_refl _)
  obtain ⟨c, more, rfl⟩ := List.exists_cons_of_ne_nil some
  obtain ⟨tail, rfl⟩ := front
  have blank : IsBlank c := ends c rfl
  obtain ⟨first, start, begins, sort⟩ := valid.first
  have begins' : first :: (start ++ c :: more) = other.chars := by
    rw [← chars, begins, List.cons_append]
  have sort' := (valid'.front ⟨[], (List.append_nil _).trans begins'.symm⟩).1
  by_cases quote : other.initial = .quote
  · obtain ⟨contents', rfl⟩ := other.eq_string quote
    obtain ⟨contents, rfl⟩ := kind.eq_string (sort.symm.trans (sort'.symm.trans quote))
    -- the closing quote of the one would be a character of the other
    rw [chars_string, chars_string, List.cons_append, List.cons_inj_right,
      List.append_assoc] at chars
    exact List.cons_ne_nil c more (string_closed valid valid' chars)
  · refine not_isBlank valid' quote c ?_ blank
    rw [← chars]
    simp

/-- A token in front of white space is not the start of a comment. -/
theorem not_comment_of_blank {kind : TokenKind} (valid : kind.Valid) {rest : List Char}
    (ends : ∀ c ∈ rest.head?, IsBlank c) : ¬ ['/', '/'] <+: kind.chars ++ rest := by
  rintro ⟨tail, comment⟩
  obtain ⟨c, more, chars, sort⟩ := valid.first
  rw [chars] at comment
  obtain ⟨rfl, next⟩ := List.cons_eq_cons.mp comment
  obtain ⟨s, rfl⟩ := kind.eq_symbol sort.symm
  cases more with
  | nil =>
      cases next
      exact absurd (ends '/' rfl) (by decide)
  | cons d more =>
      cases next
      -- no symbol starts with two slashes
      replace chars : s.text.toList = '/' :: '/' :: more := chars
      cases s <;> simp [Symbol.text] at chars

/-! ## All tokens -/

theorem render_take_succ (kind : TokenKind) (kinds : List TokenKind) (separator : List Char)
    (separators : List (List Char)) (i : Nat) :
    render ((kind :: kinds).take (i + 1)) ((separator :: separators).take (i + 1)) =
      kind.chars ++ (separator ++ render (kinds.take i) (separators.take i)) :=
  rfl

/-- The tokens of a rendering that starts on a line. -/
def renderedTokens (line : Nat) (kinds : List TokenKind) (separators : List (List Char)) :
    List Token :=
  kinds.mapIdx (fun i kind =>
      ⟨kind, line + (render (kinds.take i) (separators.take i)).count '\n'⟩) ++
    [⟨.endOfInput, line + (render kinds separators).count '\n'⟩]

theorem renderedTokens_cons (line : Nat) (kind : TokenKind) (kinds : List TokenKind)
    (separator : List Char) (separators : List (List Char)) :
    renderedTokens line (kind :: kinds) (separator :: separators) =
      ⟨kind, line⟩ :: renderedTokens (line + kind.chars.count '\n' + separator.count '\n') kinds
        separators := by
  have counted (rest : List Char) : line + (kind.chars ++ (separator ++ rest)).count '\n' =
      line + kind.chars.count '\n' + separator.count '\n' + rest.count '\n' := by
    rw [List.count_append, List.count_append]
    omega
  unfold renderedTokens
  rw [List.mapIdx_cons, List.cons_append]
  simp only [render_take_succ, render, counted]
  rfl

/-- Tokens that are written apart are read back, on the lines where they were written. -/
theorem lexAt_render {kinds : List TokenKind} {separators : List (List Char)}
    (valid : ∀ kind ∈ kinds, kind.Valid) (separated : ∀ s ∈ separators, IsSeparator s)
    (enough : kinds.length ≤ separators.length + 1) (line : Nat) :
    lexAt line (render kinds separators) = ⟨renderedTokens line kinds separators, none⟩ := by
  induction kinds generalizing separators line with
  | nil => rfl
  | cons kind kinds ih =>
      have here := valid kind List.mem_cons_self
      cases separators with
      | nil =>
          obtain rfl : kinds = [] := List.eq_nil_of_length_eq_zero (by simpa using enough)
          have ends : ∀ c ∈ ([] : List Char).head?, IsBlank c := nofun
          have taken := lexAt_token line (longestIn_of_blank here ends)
            (not_comment_of_blank here ends)
          rw [List.append_nil, lexAt_nil] at taken
          exact taken
      | cons separator separators =>
          have rest := ih (fun k mem => valid k (List.mem_cons_of_mem kind mem))
            (fun s mem => separated s (List.mem_cons_of_mem separator mem))
            (Nat.le_of_succ_le_succ enough)
          obtain @⟨c, filler, blank, isFiller⟩ := separated separator List.mem_cons_self
          have ends : ∀ d ∈ ((c :: filler) ++ render kinds separators).head?, IsBlank d := by
            rintro d ⟨⟩
            exact blank
          show lexAt line (kind.chars ++ ((c :: filler) ++ render kinds separators)) = _
          rw [lexAt_token line (longestIn_of_blank here ends) (not_comment_of_blank here ends),
            lexAt_filler (.blank blank isFiller), rest, renderedTokens_cons]
          rfl

/-- Only valid tokens are in a text. -/
theorem Scans.valid {source before : List Char} {tokens : List Token}
    (scans : Scans source before tokens) : ∀ token ∈ tokens, token.kind.Valid := by
  induction scans with
  | start => exact nofun
  | gap _ _ _ ih => exact ih
  | token _ _ longest _ ih =>
      intro token mem
      rcases List.mem_append.mp mem with earlier | last
      · exact ih token earlier
      · rw [List.mem_singleton.mp last]
        exact longest.valid

/-- They have the kinds that were written. -/
theorem renderedTokens_kinds (line : Nat) (kinds : List TokenKind) (separators : List (List Char)) :
    (renderedTokens line kinds separators).map Token.kind = kinds ++ [.endOfInput] := by
  unfold renderedTokens
  rw [List.map_append]
  congr 1
  apply List.ext_getElem?
  intro i
  rw [List.getElem?_map, List.getElem?_mapIdx]
  cases kinds[i]? <;> rfl

/-- **Splitting undoes rendering**, whatever the separators are: the tokens that were
written, each on the line that is reached in front of it, and an end-of-input token on
the last line. So a text that can be split is split into the same tokens if its tokens
are spaced in another way. -/
theorem lex_render :
    (∀ kinds separators, (∀ kind ∈ kinds, TokenKind.Valid kind) →
      (∀ s ∈ separators, IsSeparator s) → kinds.length ≤ separators.length + 1 →
      lex (String.ofList (render kinds separators)) =
        ⟨kinds.mapIdx (fun i kind =>
            ⟨kind, 1 + (render (kinds.take i) (separators.take i)).count '\n'⟩) ++
          [⟨.endOfInput, 1 + (render kinds separators).count '\n'⟩], none⟩) ∧
    (∀ source tokens separators, lex source = ⟨tokens, none⟩ →
      (∀ s ∈ separators, IsSeparator s) → tokens.length ≤ separators.length + 2 →
      ∃ respaced, lex (String.ofList (render (tokens.dropLast.map Token.kind) separators)) =
          ⟨respaced, none⟩ ∧
        respaced.map Token.kind = tokens.map Token.kind) := by
  have splits (kinds separators) (valid : ∀ kind ∈ kinds, TokenKind.Valid kind)
      (separated : ∀ s ∈ separators, IsSeparator s)
      (enough : kinds.length ≤ separators.length + 1) :
      lex (String.ofList (render kinds separators)) =
        ⟨renderedTokens 1 kinds separators, none⟩ := by
    rw [lex_eq_lexAt, String.toList_ofList, lexAt_render valid separated enough]
  refine ⟨splits, ?_⟩
  intro source tokens separators split separated enough
  obtain ⟨body, scans, rfl⟩ := lex_eq_tokens_iff.mp split
  rw [List.dropLast_concat]
  rw [List.length_append] at enough
  refine ⟨_, splits _ _ ?_ separated ?_, ?_⟩
  · intro kind mem
    obtain ⟨token, inside, rfl⟩ := List.mem_map.mp mem
    exact scans.valid token inside
  · rw [List.length_map]
    exact Nat.le_of_succ_le_succ enough
  · rw [renderedTokens_kinds, List.map_append]
    rfl

/-- Tokens that would run together without white space. -/
def crowd : List TokenKind :=
  [.symbol .slash, .symbol .slash, .number ['1'] [], .symbol .dot, .number ['5'] [],
    .string "// \n", .keyword .ifKw, .identifier "iffy", .symbol .plus, .symbol .plusPlus]

/-- A line that ends in a comment with a quote. -/
def quoteLine : List Char :=
  " // \"\n\t".toList

theorem quoteLine_isSeparator : IsSeparator quoteLine := by
  have rest : IsFiller ['\t'] := .blank (.inl rfl) .nil
  exact .mk (.inl rfl) (@IsFiller.comment " \"".toList ['\t'] (by decide) rest)

/-- Splitting gives the tokens of the crowd back, with nine comments between them. -/
theorem lex_render_crowd :
    (∀ kind ∈ crowd, kind.Valid) ∧ (∀ s ∈ List.replicate 9 quoteLine, IsSeparator s) ∧
    ∃ tokens, lex (String.ofList (render crowd (List.replicate 9 quoteLine))) =
        ⟨tokens, none⟩ ∧
      tokens.map Token.kind = crowd ++ [.endOfInput] ∧
      tokens.map Token.line = [1, 2, 3, 4, 5, 6, 8, 9, 10, 11, 11] := by
  have valid : ∀ kind ∈ crowd, kind.Valid := by decide
  have separated : ∀ s ∈ List.replicate 9 quoteLine, IsSeparator s := by
    intro s mem
    rw [List.eq_of_mem_replicate mem]
    exact quoteLine_isSeparator
  have split := lex_render.1 crowd (List.replicate 9 quoteLine) valid separated (by decide)
  exact ⟨valid, separated, _, split, by decide +kernel, by decide +kernel⟩

end TernLang
