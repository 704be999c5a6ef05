import TernLang.Proofs.Parser.Pieces
import TernLang.Proofs.Respacing

/-! # Token lists without an end

Past the last token the parser shows an end of input, on the line of the token that was
read last. So a token list need not end with one: **it is parsed as if an end-of-input
token stood behind it, on the line of its last token** (`parse_append_endOfInput`).

The parse with the token is compared with the parse without it. All the way the first
one sees one token more, on a line that never changes (`Cursor.endLine_advance`): when
everything else was read, the token read last is the last one of all.
-/

namespace TernLang

/-- The line of the last token, or the first line if there is none. -/
def endLine (tokens : List Token) : Nat :=
  (tokens.getLast?.map Token.line).getD 1

namespace Cursor

/-- The line on which the end of input shows, once everything is read. -/
def endLine (c : Cursor) : Nat :=
  ((c.rest.getLast?.or c.last).map Token.line).getD 1

/-- No end of input is written behind the position. -/
def Endless (c : Cursor) : Prop :=
  ∀ token ∈ c.rest, token.kind ≠ .endOfInput

/-- The same position with the end of input written behind the tokens. -/
def ended (c : Cursor) : Cursor :=
  { c with rest := c.rest ++ [⟨.endOfInput, c.endLine⟩] }

variable {c d : Cursor}

theorem lastLine_of_rest_nil (none : c.rest = []) : c.lastLine = c.endLine := by
  rw [endLine, none, List.getLast?_nil, Option.none_or, lastLine]
  cases c.last <;> rfl

/-- Where no end of input is ahead, none is ahead later on. -/
theorem Endless.moves (endless : c.Endless) (moves : c.Moves d) : d.Endless := by
  obtain ⟨tokens, parts⟩ := moves.suffix
  intro token mem
  exact endless token (parts ▸ List.mem_append_right tokens mem)

theorem Endless.advance (endless : c.Endless) : c.advance.Endless :=
  endless.moves (.read .here)

/-- Only where nothing is left does the parser see the end. -/
theorem Endless.rest_nil (endless : c.Endless) (atEnd : c.peek.kind = .endOfInput) :
    c.rest = [] := by
  cases left : c.rest with
  | nil => rfl
  | cons token others =>
      have first : c.peek = token := by rw [peek, left]
      exact absurd atEnd (first ▸ endless token (by simp [left]))

/-- With the end of input written behind the tokens, the parser sees the same next token. -/
theorem peek_ended (c : Cursor) : c.ended.peek = c.peek := by
  cases left : c.rest with
  | nil => simp only [peek, ended, left, List.nil_append, lastLine_of_rest_nil left]
  | cons token others => simp only [peek, ended, left, List.cons_append]

/-- Reading a token does not change where the end of input shows. -/
theorem endLine_advance (endless : c.Endless) : c.advance.endLine = c.endLine := by
  by_cases atEnd : c.peek.kind = .endOfInput
  · have left := endless.rest_nil atEnd
    have shown : c.peek.line = c.endLine := by
      rw [← lastLine_of_rest_nil left, peek, left]
    rw [advance, if_pos atEnd, ← shown]
    simp [endLine, left]
  · have more := rest_eq_peek_cons atEnd
    rw [advance_eq atEnd, endLine, endLine, more, List.getLast?_cons, List.tail_cons]
    cases c.rest.tail.getLast? <;> rfl

/-- It also reads the same one. -/
theorem advance_ended (endless : c.Endless) : c.ended.advance = c.advance.ended := by
  have line := endLine_advance endless
  by_cases atEnd : c.peek.kind = .endOfInput
  · rw [advance, if_pos (by rwa [peek_ended]), peek_ended, ended, ended, line, advance,
      if_pos atEnd]
  · have more := rest_eq_peek_cons atEnd
    have some : c.rest ≠ [] := more ▸ List.cons_ne_nil _ _
    rw [advance_eq (by rwa [peek_ended]), peek_ended, ended, ended, line, advance_eq atEnd]
    simp only [List.tail_append_of_ne_nil some]

/-- It stands in front of the same closing braces. -/
theorem atClosingBrace_ended (c : Cursor) : c.ended.atClosingBrace = c.atClosingBrace := by
  rw [atClosingBrace, atClosingBrace, atSymbol, atSymbol, peek_ended]
  rfl

/-- At the end nothing is skipped. -/
theorem skipStatement_atEnd (atEnd : c.peek.kind = .endOfInput) (fuel : Nat) :
    c.skipStatement fuel = c := by
  cases fuel with
  | zero => rfl
  | succ fuel =>
      rw [skipStatement, if_pos]
      simp [Cursor.atEnd, atEnd]

/-- Skipping reads the same tokens, if it may read all that are left. -/
theorem skipStatement_ended {fuel fuel' : Nat} (endless : c.Endless)
    (enough : c.rest.length ≤ fuel) (enough' : c.rest.length ≤ fuel') :
    c.ended.skipStatement fuel' = (c.skipStatement fuel).ended := by
  induction fuel generalizing c fuel' with
  | zero =>
      have left : c.rest = [] := List.eq_nil_of_length_eq_zero (Nat.le_zero.mp enough)
      have atEnd : c.peek.kind = .endOfInput := by rw [peek, left]
      rw [skipStatement_atEnd (by rwa [peek_ended]), skipStatement_atEnd atEnd]
  | succ fuel ih =>
      by_cases atEnd : c.peek.kind = .endOfInput
      · rw [skipStatement_atEnd (by rwa [peek_ended]), skipStatement_atEnd atEnd]
      · have length := congrArg List.length (rest_eq_peek_cons atEnd)
        rw [List.length_cons] at length
        obtain ⟨fuel', rfl⟩ := Nat.exists_eq_add_of_le' (show 1 ≤ fuel' by omega)
        have stops : (c.ended.atEnd || c.ended.last.any (·.kind.endsStatement) ||
            c.ended.peek.kind.startsStatement || c.ended.atClosingBrace) =
            (c.atEnd || c.last.any (·.kind.endsStatement) || c.peek.kind.startsStatement ||
              c.atClosingBrace) := by
          rw [Cursor.atEnd, Cursor.atEnd, peek_ended, atClosingBrace_ended]
          rfl
        rw [skipStatement, skipStatement, stops]
        split
        · rfl
        · have shorter : c.advance.rest.length = c.rest.tail.length := by rw [advance_eq atEnd]
          rw [advance_ended endless]
          exact ih endless.advance (by omega) (by omega)

/-- It leaves a bad statement at the same place. -/
theorem synchronize_ended (endless : c.Endless) : c.ended.synchronize = c.synchronize.ended := by
  have shorter : c.advance.rest.length ≤ c.rest.length := (Moves.read .here).length_le
  have length : c.ended.rest.length = c.rest.length + 1 := by simp [ended]
  rw [synchronize, synchronize, atClosingBrace_ended, length, advance_ended endless]
  split
  · rfl
  · exact skipStatement_ended endless.advance shorter (Nat.le_succ_of_le shorter)

end Cursor

namespace Parse

/-- A parse compared with the parse in which the end of input is written. -/
def Simulation.ended : Simulation where
  lines := id
  lenient := False
  Related c d := c.Endless ∧ d = c.ended
  Beyond _ := False
  beyond_moves beyond _ := beyond
  beyond_leave := id
  overflowed lenient _ := lenient
  peek := by
    rintro c d ⟨-, rfl⟩
    exact c.peek_ended
  advance := by
    rintro c d ⟨endless, rfl⟩
    exact .inr ⟨endless.advance, Cursor.advance_ended endless⟩
  report := by
    rintro c d error ⟨endless, rfl⟩
    exact .inr ⟨endless, rfl⟩
  enter := by
    rintro c d ⟨endless, rfl⟩
    exact ⟨endless, rfl⟩
  leave := by
    rintro c d ⟨endless, rfl⟩
    exact ⟨endless, rfl⟩
  resume := by
    rintro c d error ⟨endless, rfl⟩
    have noted : (c.report error).Endless := endless
    exact .inr ⟨noted.moves (Cursor.moves_synchronize _), Cursor.synchronize_ended noted⟩

end Parse

/-- At the start, the end of input is on the line of the last token. -/
theorem ended_start (tokens : List Token) :
    (Cursor.start tokens).ended = Cursor.start (tokens ++ [⟨.endOfInput, endLine tokens⟩]) := by
  rw [Cursor.ended, Cursor.endLine, endLine, Cursor.start, Option.or_none]
  rfl

/-- With room for a declaration, the end of input makes no difference. -/
theorem parse_ended {room : Nat} (enough : 5 ≤ room) {tokens : List Token}
    (endless : ∀ token ∈ tokens, token.kind ≠ .endOfInput) :
    parse room (tokens ++ [⟨.endOfInput, endLine tokens⟩]) = parse room tokens := by
  let start := Cursor.start tokens
  -- the longer list lets the loops make one pass more, which is not needed
  obtain ⟨d, run, noted⟩ : ∃ d, Parse.declarations false
      (Parse.declaration (tokens.length + 1) room) (tokens.length + 1) start =
        .ok (parse room tokens).statements d ∧
      d.errors = start.errors ++ (parse room tokens).errors.toArray :=
    Parse.declarations_whole enough rfl (Nat.le_succ _) (Nat.le_succ _)
  have started : Parse.Simulation.ended.Related start start.ended := ⟨endless, rfl⟩
  have compared := (Parse.program_agrees (.inl rfl) (tokens.length + 1) room).run _ _ started
  rw [Nat.zero_add, run] at compared
  rcases compared with escapes | matched
  · exact escapes.elim
  · rcases matched.outcomes with ⟨stmts, c, e, left, right, -, rfl⟩ | ⟨_, _, _, left, _, _⟩
    · cases left
      have length : (tokens ++ [(⟨.endOfInput, endLine tokens⟩ : Token)]).length =
          tokens.length + 1 := by simp
      rw [ended_start, ← length] at right
      have errors : d.ended.errors = (parse room tokens).errors.toArray := by
        show d.errors = _
        simpa [start, Cursor.start] using noted
      rw [Parse.parse_of_ok right, errors]
      simp [Parse.Simulation.ended]
    · cases left

/-- With less room no declaration can be tried. -/
theorem parse_small {room : Nat} (small : room < 5) (tokens : List Token) :
    parse room tokens = ⟨[], []⟩ := by
  have stops (size : Nat) : Parse.declaration size room = Parse.tooDeep := by
    match room, small with
    | 0, _ | 1, _ | 2, _ | 3, _ | 4, _ => rfl
  simp only [parse, stops]
  cases tokens with
  | nil => rfl
  | cons token others =>
      let start := Cursor.start (token :: others)
      by_cases atEnd : start.peek.kind = .endOfInput
      · rw [Parse.declarations_stop (c := start) (by simp [atEnd])]
        rfl
      · have run : Parse.declarations false Parse.tooDeep (token :: others).length start =
            .error .tooDeep start := by
          refine Parse.peek_bind ?_
          rw [if_neg (by simpa using atEnd)]
          rfl
        rw [run]
        rfl

/-- What is split off a source text is no end of input. -/
theorem Scans.endless {source before : List Char} {tokens : List Token}
    (scans : Scans source before tokens) : ∀ token ∈ tokens, token.kind ≠ .endOfInput := by
  intro token mem atEnd
  have valid := scans.valid token mem
  rw [atEnd] at valid
  exact valid

/-- A source text has an end-of-input token only behind all others. -/
theorem take_lex_endless {source : String} {n : Nat} (less : n < (lex source).tokens.length) :
    ∀ token ∈ (lex source).tokens.take n, token.kind ≠ .endOfInput := by
  rcases exists_scan source.toList with
    ⟨body, scans⟩ | ⟨before, rest, tokens, cause, parts, scans, stuck⟩
  · rw [lex_eq_lexAt, scans.lex_end] at less ⊢
    have inside : n ≤ body.length := by
      rw [List.length_append, List.length_singleton] at less
      exact Nat.le_of_lt_succ less
    rw [List.take_append_of_le_length inside]
    exact fun token mem => scans.endless token (List.mem_of_mem_take mem)
  · rw [lex_eq_lexAt, scans.lex_stuck parts stuck]
    exact fun token mem => scans.endless token (List.mem_of_mem_take mem)

/-- **A token list that lacks its end of input is parsed as if it were there**, on the
line of the last token, or on the first line if there is no token: the same statements
are read and the same mistakes are noted, in the same order. The list need not be well
formed, and it may be cut off anywhere, as the tokens in front of any token of a source
text are. -/
theorem parse_append_endOfInput (room : Nat) :
    (∀ tokens : List Token, (∀ token ∈ tokens, token.kind ≠ .endOfInput) →
      parse room (tokens ++ [⟨.endOfInput, endLine tokens⟩]) = parse room tokens) ∧
    ∀ (source : String), ∀ n < (lex source).tokens.length,
      let front := (lex source).tokens.take n
      parse room (front ++ [⟨.endOfInput, endLine front⟩]) = parse room front := by
  have whole (tokens : List Token) (endless : ∀ token ∈ tokens, token.kind ≠ .endOfInput) :
      parse room (tokens ++ [⟨.endOfInput, endLine tokens⟩]) = parse room tokens := by
    by_cases enough : 5 ≤ room
    · exact parse_ended enough endless
    · rw [parse_small (by omega), parse_small (by omega)]
  exact ⟨whole, fun source n less => whole _ (take_lex_endless less)⟩

/-- A text that is cut off inside of a block and of parentheses, with a mistake before. -/
def cutOff : List Token :=
  (lex "print ;\n\x7b x =\n(1 + y) \x7d").tokens.take 9

/-- The end of the cut-off text is found twice: in the expression, and in the block that
is left for it. -/
theorem parse_append_endOfInput_cutOff :
    (∀ token ∈ cutOff, token.kind ≠ .endOfInput) ∧ endLine cutOff = 3 ∧
    parse 40 (cutOff ++ [⟨.endOfInput, 3⟩]) = parse 40 cutOff ∧
    (parse 40 cutOff).errors = [⟨.missing .expression, ⟨.symbol .semicolon, 1⟩⟩,
      ⟨.missing .parenAfterExpression, ⟨.endOfInput, 3⟩⟩,
      ⟨.missing .braceAfterBlock, ⟨.endOfInput, 3⟩⟩] := by
  have endless : ∀ token ∈ cutOff, token.kind ≠ .endOfInput := by decide +kernel
  have line : endLine cutOff = 3 := by decide +kernel
  have same := (parse_append_endOfInput 40).1 cutOff endless
  rw [line] at same
  exact ⟨endless, line, same, by decide +kernel⟩

end TernLang
