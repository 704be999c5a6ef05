import TernLang.Token.Lexer

/-! # The lines of tokens

Each piece that is taken from the front of a text counts only line feeds that are in
it. So **every token, and the place where splitting a text stops, is on a line of the
text** (`lex_lines`); lines are numbered from one. A text that splits up to its end
has an end-of-input token (`exists_endOfInput`).
-/

namespace TernLang

/-- The line feeds that a step counts, and those in the rest, are in the text. -/
def LexStep.Within (text : List Char) : LexStep → Prop
  | .gap lineFeeds rest => lineFeeds + rest.count '\n' ≤ text.count '\n'
  | .token _ lineFeeds rest => lineFeeds + rest.count '\n' ≤ text.count '\n'
  | .stuck _ => True

theorem LexStep.Within.cons {text : List Char} {step : LexStep} (within : step.Within text)
    (c : Char) : step.Within (c :: text) := by
  have more := (List.sublist_cons_self c text).count_le '\n'
  cases step with
  | gap lineFeeds rest => exact Nat.le_trans within more
  | token kind lineFeeds rest => exact Nat.le_trans within more
  | stuck cause => trivial

theorem lexFraction_sublist (text : List Char) : (lexFraction text).2.Sublist text := by
  unfold lexFraction
  split
  · split
    · exact ((List.dropWhile_sublist _).cons _).cons _
    · exact List.Sublist.refl _
  · exact List.Sublist.refl _

theorem lexNumber_within (first : Char) (rest : List Char) : (lexNumber first rest).Within rest := by
  have taken := (lexFraction_sublist _).trans (List.dropWhile_sublist Char.isDigit (l := rest))
  show 0 + _ ≤ _
  rw [Nat.zero_add]
  exact taken.count_le '\n'

/-- The line feeds of a string literal are those between its quotes. -/
theorem lexString_within (rest : List Char) : (lexString rest).Within rest := by
  unfold lexString
  cases closing : rest.dropWhile (· != '"') with
  | nil => trivial
  | cons quote remaining =>
      show (rest.takeWhile (· != '"')).count '\n' + remaining.count '\n' ≤ rest.count '\n'
      have parts : rest = rest.takeWhile (· != '"') ++ quote :: remaining := by
        rw [← closing, List.takeWhile_append_dropWhile]
      have counted := congrArg (List.count '\n') parts
      have tail := (List.sublist_cons_self quote remaining).count_le '\n'
      rw [List.count_append] at counted
      omega

theorem lexSymbol_within (c : Char) (rest : List Char) : (lexSymbol c rest).Within rest := by
  unfold lexSymbol
  dsimp only
  cases rest with
  | nil =>
      dsimp only
      split
      · exact Nat.le_refl _
      · trivial
  | cons next remaining =>
      dsimp only
      split
      · show 0 + remaining.count '\n' ≤ _
        rw [Nat.zero_add]
        exact (List.sublist_cons_self next remaining).count_le '\n'
      · split
        · exact Nat.le_of_eq (Nat.zero_add _)
        · trivial

/-- No step counts or leaves a line feed that is not in the text. -/
theorem lexStep_within (c : Char) (rest : List Char) : (lexStep c rest).Within (c :: rest) := by
  have skip : ∀ p : Char → Bool, 0 + (rest.dropWhile p).count '\n' ≤ (c :: rest).count '\n' := by
    intro p
    rw [Nat.zero_add]
    exact ((List.dropWhile_sublist p).cons c).count_le '\n'
  unfold lexStep
  by_cases feed : c == '\n'
  · rw [if_pos feed]
    show 1 + rest.count '\n' ≤ _
    rw [List.count_cons, if_pos feed]
    omega
  · rw [if_neg feed]
    by_cases space : isSpace c
    · rw [if_pos space]
      exact skip isSpace
    · rw [if_neg space]
      split
      · exact skip (· != '\n')
      · split
        · exact (lexNumber_within c rest).cons c
        · split
          · exact (lexString_within rest).cons c
          · split
            · exact skip isNameChar
            · exact (lexSymbol_within c rest).cons c

/-! ## Whole texts -/

/-- The line is one of those from `first` on that a text covers. -/
def OnLine (first : Nat) (text : List Char) (line : Nat) : Prop :=
  first ≤ line ∧ line ≤ first + text.count '\n'

/-- A line of what is left after a step is a line of the text. -/
theorem OnLine.earlier {first line lineFeeds : Nat} {rest text : List Char}
    (on : OnLine (first + lineFeeds) rest line)
    (within : lineFeeds + rest.count '\n' ≤ text.count '\n') : OnLine first text line := by
  obtain ⟨least, most⟩ := on
  unfold OnLine
  omega

/-- Every token and every error has the number of a line of the text. -/
theorem lexFrom_lines (fuel first : Nat) (text : List Char) :
    (∀ token ∈ (lexFrom fuel first text).tokens, OnLine first text token.line) ∧
      ∀ error ∈ (lexFrom fuel first text).error?, OnLine first text error.line := by
  have start : ∀ text, OnLine first text first :=
    fun text => ⟨Nat.le_refl _, Nat.le_add_right _ _⟩
  induction fuel generalizing first text with
  | zero =>
      cases text with
      | nil => simp [lexFrom, start]
      | cons c rest => simp [lexFrom, start]
  | succ fuel ih =>
      cases text with
      | nil => simp [lexFrom, start]
      | cons c rest =>
          have within := lexStep_within c rest
          unfold lexFrom
          cases step : lexStep c rest with
          | stuck cause => simp [start]
          | gap lineFeeds remaining =>
              rw [step] at within
              obtain ⟨tokens, errors⟩ := ih (first + lineFeeds) remaining
                (fun text => ⟨Nat.le_refl _, Nat.le_add_right _ _⟩)
              exact ⟨fun token mem => (tokens token mem).earlier within,
                fun error mem => (errors error mem).earlier within⟩
          | token kind lineFeeds remaining =>
              rw [step] at within
              obtain ⟨tokens, errors⟩ := ih (first + lineFeeds) remaining
                (fun text => ⟨Nat.le_refl _, Nat.le_add_right _ _⟩)
              refine ⟨?_, fun error mem => (errors error mem).earlier within⟩
              intro token mem
              rcases List.mem_cons.mp mem with rfl | later
              · exact start _
              · exact (tokens token later).earlier within

/-- **Tokens and lexical errors are on lines of the text.** -/
theorem lex_lines (source : String) :
    (∀ token ∈ (lex source).tokens, OnLine 1 source.toList token.line) ∧
      ∀ error ∈ (lex source).error?, OnLine 1 source.toList error.line :=
  lexFrom_lines source.length 1 source.toList

theorem exists_endOfInput_from (fuel first : Nat) (text : List Char)
    (split : (lexFrom fuel first text).error? = none) :
    ∃ token ∈ (lexFrom fuel first text).tokens, token.kind = .endOfInput := by
  induction fuel generalizing first text with
  | zero =>
      cases text with
      | nil => exact ⟨_, List.mem_cons_self, rfl⟩
      | cons c rest => cases split
  | succ fuel ih =>
      cases text with
      | nil => exact ⟨_, List.mem_cons_self, rfl⟩
      | cons c rest =>
          unfold lexFrom at split ⊢
          cases step : lexStep c rest with
          | stuck cause =>
              rw [step] at split
              cases split
          | gap lineFeeds remaining =>
              rw [step] at split
              exact ih _ _ split
          | token kind lineFeeds remaining =>
              rw [step] at split
              obtain ⟨token, mem, ending⟩ := ih _ _ split
              exact ⟨token, List.mem_cons_of_mem _ mem, ending⟩

/-- A text that splits up to its end has an end-of-input token. -/
theorem exists_endOfInput {source : String} (split : (lex source).error? = none) :
    ∃ token ∈ (lex source).tokens, token.kind = .endOfInput :=
  exists_endOfInput_from source.length 1 source.toList split

end TernLang
