import Mathlib.Logic.Relation
import TernLang.Proofs.Respacing
import TernLang.Text.Word

/-! # Where tokens stand

Every token of a text stands in one place (`Scans.exists_stands`, `Stands.unique`): the
scan of the text comes there with the tokens in front, and takes it. A scan is a row of
steps, and each step is determined by what is in front of it (`ScanStep.unique`), so of
two positions one is reached from the other.

From a token to the next one the scan takes gaps only. **A keyword and the name behind
it on the same line have white space between them** and nothing else, and no character
of a word comes behind the name (`Stands.spaced`, `Stands.stops_word`).
-/

namespace TernLang

open Relation

/-! ## Steps of a scan -/

/-- One step of a scan: a gap or the longest token. -/
inductive ScanStep (source : List Char) :
    List Char × List Token → List Char × List Token → Prop
  | gap {before piece rest : List Char} {tokens : List Token} :
      source = before ++ (piece ++ rest) → IsGap piece rest →
      ScanStep source (before, tokens) (before ++ piece, tokens)
  | token {before text rest : List Char} {tokens : List Token} {kind : TokenKind} :
      source = before ++ text → kind.LongestIn text rest → ¬ ['/', '/'] <+: text →
      ScanStep source (before, tokens)
        (before ++ kind.chars, tokens ++ [⟨kind, 1 + before.count '\n'⟩])

/-- A comment goes on to the end of its line. -/
theorem IsGap.unique {piece rest piece' rest' : List Char} (gap : IsGap piece rest)
    (gap' : IsGap piece' rest') (same : piece ++ rest = piece' ++ rest') : piece = piece' := by
  have comment {text rest : List Char} (inside : '\n' ∉ text) (ends : ∀ c ∈ rest.head?, c = '\n') :
      (text ++ rest).takeWhile (· != '\n') = text :=
    takeWhile_run (all_bne inside) fun c mem => by simp [ends c mem]
  cases gap with
  | blank blank =>
      cases gap' with
      | blank blank' => exact congrArg (fun c => [c]) (List.head_eq_of_cons_eq same)
      | comment _ _ =>
          cases same
          exact absurd blank (by decide)
  | comment inside ends =>
      cases gap' with
      | blank blank' =>
          cases same
          exact absurd blank' (by decide)
      | comment inside' ends' =>
          simp only [List.cons_append, List.cons.injEq, true_and] at same
          have run := comment inside ends
          rw [same, comment inside' ends'] at run
          rw [run]

/-- **What comes next in a scan is determined.** -/
theorem ScanStep.unique {source : List Char} : Relator.RightUnique (ScanStep source) := by
  rintro a b c first second
  cases first with
  | @gap before piece rest tokens here gap =>
      cases second with
      | gap here' gap' =>
          rw [gap.unique gap' (List.append_cancel_left (here.symm.trans here'))]
      | token here' longest code =>
          have same := List.append_cancel_left (here'.symm.trans here)
          exact absurd same (longest.noGap code piece rest gap)
  | token here longest code =>
      cases second with
      | @gap _ piece rest _ here' gap =>
          have same := List.append_cancel_left (here.symm.trans here')
          exact absurd same (longest.noGap code piece rest gap)
      | token here' longest' code' =>
          obtain rfl := List.append_cancel_left (here.symm.trans here')
          rw [(longest.unique longest').1]

variable {source before : List Char} {tokens : List Token}

theorem Scans.steps (scans : Scans source before tokens) :
    ReflTransGen (ScanStep source) ([], []) (before, tokens) := by
  induction scans with
  | start => exact .refl
  | gap _ here gap ih => exact ih.tail (.gap here gap)
  | token _ here longest code ih => exact ih.tail (.token here longest code)

/-- Going on only adds tokens. -/
theorem prefix_of_steps {a b : List Char × List Token}
    (steps : ReflTransGen (ScanStep source) a b) : a.2 <+: b.2 := by
  induction steps with
  | refl => exact List.prefix_rfl
  | tail _ step ih =>
      cases step with
      | gap _ _ => exact ih
      | token _ _ _ => exact ih.trans (List.prefix_append _ _)

/-! ## The place of a token -/

/-- The token with a number stands behind `front`: the scan comes there with the tokens in
front of it and goes on with it, to `behind`. -/
structure Stands (source : List Char) (tokens : List Token) (number : Nat) (token : Token)
    (front behind : List Char) : Prop where
  found : tokens[number]? = some token
  scans : Scans source front (tokens.take number)
  parts : source = front ++ (token.kind.chars ++ behind)
  longest : token.kind.LongestIn (token.kind.chars ++ behind) behind
  code : ¬ ['/', '/'] <+: token.kind.chars ++ behind
  line : token.line = 1 + front.count '\n'

/-- Every token that is scanned stands somewhere. -/
theorem Scans.exists_stands (scans : Scans source before tokens) {number : Nat} {token : Token}
    (found : tokens[number]? = some token) :
    ∃ front behind, Stands source tokens number token front behind := by
  induction scans with
  | start => cases found
  | gap _ _ _ ih => exact ih found
  | @token before text rest tokens kind scans here longest code ih =>
      by_cases earlier : number < tokens.length
      · rw [List.getElem?_append_left earlier] at found
        obtain ⟨front, behind, stands⟩ := ih found
        refine ⟨front, behind, { stands with found := ?_, scans := ?_ }⟩
        · rw [List.getElem?_append_left earlier, found]
        · rw [List.take_append_of_le_length (Nat.le_of_lt earlier)]
          exact stands.scans
      · have last : number = tokens.length := by
          have inside := (List.getElem?_eq_some_iff.mp found).1
          rw [List.length_append, List.length_singleton] at inside
          omega
        subst last
        rw [List.getElem?_concat_length] at found
        cases found
        have text_eq := longest.text_eq
        refine ⟨before, rest, List.getElem?_concat_length, ?_, text_eq ▸ here, text_eq ▸ longest,
          text_eq ▸ code, rfl⟩
        rwa [List.take_left]

namespace Stands

variable {number : Nat} {token token' : Token} {front front' behind behind' : List Char}

theorem step (stands : Stands source tokens number token front behind) :
    ScanStep source (front, tokens.take number)
      (front ++ token.kind.chars, tokens.take (number + 1)) := by
  have step := @ScanStep.token source front _ behind (tokens.take number) _ stands.parts
    stands.longest stands.code
  have next : tokens.take (number + 1) =
      tokens.take number ++ [⟨token.kind, 1 + front.count '\n'⟩] := by
    rw [List.take_add_one, stands.found, ← stands.line]
    rfl
  rwa [next]

/-- The scan goes on behind the token. -/
theorem scans_behind (stands : Stands source tokens number token front behind) :
    Scans source (front ++ token.kind.chars) (tokens.take (number + 1)) := by
  have scans := stands.scans.token stands.parts stands.longest stands.code
  rw [← stands.line] at scans
  rw [List.take_add_one, stands.found]
  exact scans

/-- The scan does not come past a token before it takes it. -/
theorem eq_of_steps (stands : Stands source tokens number token front behind)
    (steps : ReflTransGen (ScanStep source) (front, tokens.take number)
      (before, tokens.take number)) : front = before := by
  rcases steps.cases_head with same | ⟨next, step, more⟩
  · exact congrArg Prod.fst same
  · rw [ScanStep.unique step stands.step] at more
    have longer := (prefix_of_steps more).length_le
    have inside := (List.getElem?_eq_some_iff.mp stands.found).1
    simp only [List.length_take] at longer
    omega

/-- **A token stands in one place.** -/
theorem unique (stands : Stands source tokens number token front behind)
    (stands' : Stands source tokens number token' front' behind') : front = front' := by
  rcases stands.scans.steps.total_of_right_unique ScanStep.unique stands'.scans.steps with
    steps | steps
  · exact stands.eq_of_steps steps
  · exact (stands'.eq_of_steps steps).symm

/-- In front of a token are the tokens in front of it. -/
theorem lexAt_front (stands : Stands source tokens number token front behind) :
    (lexAt 1 front).tokens.length = number + 1 := by
  have inside := (List.getElem?_eq_some_iff.mp stands.found).1
  rw [(stands.scans.cut List.prefix_rfl stands.scans.front).lex_end, List.length_append,
    List.length_take, Nat.min_eq_left (Nat.le_of_lt inside), List.length_singleton]

/-- Only gaps are between a token and the next one. -/
theorem steps_next (stands : Stands source tokens number token front behind)
    (next : Stands source tokens (number + 1) token' front' behind') :
    ReflTransGen (ScanStep source) (front ++ token.kind.chars, tokens.take (number + 1))
      (front', tokens.take (number + 1)) := by
  rcases stands.scans_behind.steps.total_of_right_unique ScanStep.unique next.scans.steps with
    steps | steps
  · exact steps
  · rw [next.eq_of_steps steps]

end Stands

/-! ## A keyword and a name -/

/-- On one line, only white space is between two tokens. -/
theorem spaces_of_steps {a b : List Char × List Token} {text : List Char}
    (steps : ReflTransGen (ScanStep source) a b) (same : a.2.length = b.2.length)
    (parts : source = b.1 ++ text) (ink : ∃ c more, text = c :: more ∧ ¬ IsBlank c) :
    ∃ gap, b.1 = a.1 ++ gap ∧ ('\n' ∉ gap → gap.all isSpace = true) := by
  induction steps using ReflTransGen.head_induction_on with
  | refl => exact ⟨[], (List.append_nil _).symm, fun _ => rfl⟩
  | head step more ih =>
      have longer := (prefix_of_steps more).length_le
      cases step with
      | token _ _ _ =>
          simp only [List.length_append, List.length_singleton] at longer same
          omega
      | @gap before piece rest tokens here isGap =>
          obtain ⟨gap, reached, spaces⟩ := ih same
          refine ⟨piece ++ gap, by rw [reached, List.append_assoc], fun oneLine => ?_⟩
          rw [List.mem_append, not_or] at oneLine
          rw [List.all_append, spaces oneLine.2, Bool.and_true]
          cases isGap with
          | blank blank =>
              rcases blank with space | rfl
              · simpa using space
              · exact absurd List.mem_cons_self oneLine.1
          | comment _ ends =>
              -- a comment ends with its line, and nothing is behind it on the line
              have behind : rest = gap ++ text := by
                rw [reached, List.append_assoc, List.append_assoc] at parts
                exact List.append_cancel_left (List.append_cancel_left (here.symm.trans parts))
              obtain ⟨c, more, rfl, ink⟩ := ink
              cases gap with
              | nil => exact absurd (.inr (ends c (by rw [behind]; rfl))) ink
              | cons d others =>
                  have feed : d = '\n' := ends d (by rw [behind]; rfl)
                  exact absurd List.mem_cons_self (feed ▸ oneLine.2)

/-- No longer word is in front of a text than the longest token. -/
theorem TokenKind.LongestIn.stops_word {kind : TokenKind} {text rest : List Char}
    (longest : kind.LongestIn text rest) (sort : kind.initial = .letter) :
    Stops isNameChar rest := by
  intro c mem
  obtain ⟨more, rfl⟩ := List.head?_eq_some_iff.mp mem
  rw [← Bool.not_eq_true]
  intro goesOn
  have word : isWord (kind.chars ++ [c]) = true := by
    have word := (longest.valid.word sort).1
    obtain ⟨first, others, chars, -⟩ := longest.valid.first
    rw [chars, isWord, Bool.and_eq_true] at word
    rw [chars, List.cons_append, isWord, word.1, List.all_append, word.2]
    simpa using goesOn
  obtain ⟨valid, chars⟩ := valid_wordKind word
  have front : (wordKind (kind.chars ++ [c])).chars <+: text :=
    ⟨more, by rw [chars, longest.text_eq, List.append_assoc]; rfl⟩
  have longer := longest.longest _ valid front
  rw [chars, List.length_append] at longer
  exact absurd longer (by simp)

/-- Letters and digits that are none of names start no token and no gap. -/
theorem initial_of_isWordChar {c : Char} (word : Text.isWordChar c = true)
    (foreign : isNameChar c = false) : initial c = .none ∧ ¬ IsBlank c ∧ c ≠ '/' := by
  have high : 0xaa ≤ c.toNat := by
    have ascii : Text.isAsciiWord c = false := foreign
    rw [Text.isWordChar, ascii, Bool.false_or] at word
    by_contra low
    rw [Text.lettersAndDigits, Text.Ranges.contains, if_pos (by omega)] at word
    simp only [decide_eq_true_eq] at word
    omega
  have blank : ¬ IsBlank c := by
    intro blank
    rcases blank.cases with rfl | rfl | rfl | rfl | rfl | rfl <;> exact absurd high (by decide)
  have quote : (c == '"') = false := by
    rw [beq_eq_false_iff_ne]
    rintro rfl
    exact absurd high (by decide)
  have symbol : Symbol.ofChar? c = none := by
    cases found : Symbol.ofChar? c with
    | none => rfl
    | some s =>
        have text := Symbol.text_of_ofChar? found
        cases s <;> cases text <;> exact absurd high (by decide)
  simp only [isNameChar, Char.isAlphanum, Bool.or_eq_false_iff] at foreign
  refine ⟨?_, blank, ?_⟩
  · simp [initial, isNameStart, foreign, quote, symbol]
  · rintro rfl
    exact absurd high (by decide)

namespace Stands

variable {number : Nat} {token token' : Token} {front front' behind behind' : List Char}

/-- **Between a word and the next one on its line is white space**, and nothing else. -/
theorem spaced (stands : Stands source tokens number token front behind)
    (next : Stands source tokens (number + 1) token' front' behind')
    (word : token.kind.initial = .letter) (word' : token'.kind.initial = .letter)
    (oneLine : token.line = token'.line) :
    ∃ gap, front' = front ++ (token.kind.chars ++ gap) ∧ gap ≠ [] ∧ gap.all isSpace = true := by
  obtain ⟨first, others, chars, sort⟩ := next.longest.valid.first
  have start : token'.kind.chars <+: first :: others := chars ▸ List.prefix_rfl
  have ink := next.longest.valid.not_isBlank_first start
  obtain ⟨gap, reached, spaces⟩ := spaces_of_steps (stands.steps_next next) rfl next.parts
    ⟨first, others ++ behind', by rw [chars, List.cons_append], ink⟩
  replace reached : front' = front ++ (token.kind.chars ++ gap) := by
    rw [← List.append_assoc]
    exact reached
  have feeds : '\n' ∉ gap := by
    rw [stands.line, next.line, reached, List.count_append, List.count_append] at oneLine
    rw [← List.count_eq_zero]
    omega
  refine ⟨gap, reached, ?_, spaces feeds⟩
  rintro rfl
  -- without a gap the two words would be one
  have same := stands.parts.symm.trans next.parts
  rw [reached, List.append_nil, List.append_assoc] at same
  have text := List.append_cancel_left (List.append_cancel_left same)
  have stops := stands.longest.stops_word word
  rw [text, chars, List.cons_append, stops_cons] at stops
  have letter := next.longest.valid.word word'
  rw [chars, isWord, Bool.and_eq_true] at letter
  rw [isNameStart_isNameChar letter.1.1] at stops
  cases stops

/-- **Behind a word of a text that is split is no character of a word**, in any script. -/
theorem stops_word (stands : Stands source tokens number token front behind)
    (word : token.kind.initial = .letter) (split : (lexAt 1 source).error? = none) :
    Stops Text.isWordChar behind := by
  intro c mem
  obtain ⟨more, rfl⟩ := List.head?_eq_some_iff.mp mem
  have foreign := stops_cons.mp (stands.longest.stops_word word)
  rw [← Bool.not_eq_true]
  intro letter
  obtain ⟨sort, ink, code⟩ := initial_of_isWordChar letter foreign
  have parts : source = (front ++ token.kind.chars) ++ c :: more := by
    rw [stands.parts, List.append_assoc]
  rcases exists_piece c more with
    ⟨piece, rest, gap, -, same⟩ | ⟨kind, rest, longest, -⟩ | ⟨_, stuck⟩
  · cases gap with
    | blank blank =>
        cases same
        exact ink blank
    | comment _ _ =>
        cases same
        exact code rfl
  · have front := longest.valid.front ⟨rest, longest.text_eq.symm⟩
    exact longest.valid.initial_ne_none (front.1.trans sort)
  · rw [stands.scans_behind.lex_stuck parts stuck] at split
    cases split

end Stands

end TernLang
