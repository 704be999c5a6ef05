import TernLang.Proofs.Parser.Simulation.Statement

/-! # Parsing does not look at lines

**The parse of a program whose lines were renumbered is the renumbered parse**
(`parse_mapLines`): no decision of the parser depends on where a token stands.
Past the last token the parser shows an end of input on the first line if
nothing was read, so a renumbering has to keep the first line, unless there is an
end-of-input token, which is never read past.

A renumbering can keep the lines of all tokens and change every other line. So the
parser makes no lines up: **a mistake is reported on the line of a token**
(`error_line_mem`).
-/

namespace TernLang

def Cursor.mapLines (f : Nat → Nat) (cursor : Cursor) : Cursor where
  rest := cursor.rest.map (Token.mapLine f)
  last := cursor.last.map (Token.mapLine f)
  errors := cursor.errors.map (SyntaxError.mapLine f)
  openBlocks := cursor.openBlocks

namespace Cursor

variable {f : Nat → Nat}

/-- The renumbering keeps the line that is shown past the last token, or that
token is never passed. -/
def Shows (f : Nat → Nat) (c : Cursor) : Prop :=
  f 1 = 1 ∨ ∃ token ∈ c.rest, token.kind = .endOfInput

theorem Shows.advance {c : Cursor} (shows : c.Shows f) : c.advance.Shows f := by
  refine shows.imp_right ?_
  rintro ⟨token, mem, ending⟩
  unfold Cursor.advance
  by_cases stays : c.peek.kind = .endOfInput
  · rw [if_pos stays]
    exact ⟨token, mem, ending⟩
  · rw [if_neg stays]
    refine ⟨token, ?_, ending⟩
    cases rest : c.rest with
    | nil => simp [rest] at mem
    | cons first others =>
        rw [rest] at mem
        rcases List.mem_cons.mp mem with rfl | later
        · exact absurd ending (by simpa [peek, rest] using stays)
        · exact later

/-- The token seen is the renumbered one. -/
theorem peek_mapLines {c : Cursor} (shows : c.Shows f) :
    (c.mapLines f).peek = c.peek.mapLine f := by
  cases rest : c.rest with
  | nil =>
      rcases shows with first | ⟨token, mem, -⟩
      · cases last : c.last with
        | none => simp [peek, mapLines, rest, lastLine, last, Token.mapLine, first]
        | some token => simp [peek, mapLines, rest, lastLine, last, Token.mapLine]
      · simp [rest] at mem
  | cons token others => simp only [peek, mapLines, rest, List.map_cons]

theorem advance_mapLines {c : Cursor} (shows : c.Shows f) :
    (c.mapLines f).advance = c.advance.mapLines f := by
  unfold advance
  simp only [peek_mapLines shows, Token.mapLine_kind]
  split
  · rfl
  · simp [mapLines]

theorem report_mapLines (c : Cursor) (error : SyntaxError) :
    (c.mapLines f).report (error.mapLine f) = (c.report error).mapLines f := by
  simp [report, mapLines]

theorem atClosingBrace_mapLines {c : Cursor} (shows : c.Shows f) :
    (c.mapLines f).atClosingBrace = c.atClosingBrace := by
  unfold atClosingBrace atSymbol
  rw [peek_mapLines shows]
  rfl

/-- What is skipped in recovery does not depend on lines. -/
theorem skipStatement_mapLines (fuel : Nat) {c : Cursor} (shows : c.Shows f) :
    (c.mapLines f).skipStatement fuel = (c.skipStatement fuel).mapLines f ∧
      (c.skipStatement fuel).Shows f := by
  induction fuel generalizing c with
  | zero => exact ⟨rfl, shows⟩
  | succ fuel ih =>
      -- where skipping stops is decided by kinds of tokens alone
      have ended : (c.mapLines f).last.any (·.kind.endsStatement) =
          c.last.any (·.kind.endsStatement) := by
        unfold mapLines
        cases c.last <;> rfl
      have stops : ((c.mapLines f).atEnd || (c.mapLines f).last.any (·.kind.endsStatement) ||
          (c.mapLines f).peek.kind.startsStatement || (c.mapLines f).atClosingBrace) =
          (c.atEnd || c.last.any (·.kind.endsStatement) || c.peek.kind.startsStatement ||
            c.atClosingBrace) := by
        rw [ended, atClosingBrace_mapLines shows, atEnd, atEnd, peek_mapLines shows]
        rfl
      unfold skipStatement
      rw [stops]
      split
      · exact ⟨rfl, shows⟩
      · rw [advance_mapLines shows]
        exact ih shows.advance

/-- Recovery stops at the same token, whatever the lines. -/
theorem synchronize_mapLines {c : Cursor} (shows : c.Shows f) :
    (c.mapLines f).synchronize = c.synchronize.mapLines f ∧ c.synchronize.Shows f := by
  have length : (c.mapLines f).rest.length = c.rest.length := by simp [mapLines]
  unfold synchronize
  rw [atClosingBrace_mapLines shows, length]
  split
  · exact ⟨rfl, shows⟩
  · rw [advance_mapLines shows]
    exact skipStatement_mapLines _ shows.advance

end Cursor

namespace Parse

/-- A parse compared with the parse of the renumbered program. -/
def Simulation.renumbered (f : Nat → Nat) : Simulation where
  lines := f
  lenient := False
  Related c d := d = c.mapLines f ∧ c.Shows f
  Beyond _ := False
  beyond_moves := nofun
  beyond_leave := nofun
  overflowed := nofun
  peek := by
    rintro c d ⟨rfl, shows⟩
    exact Cursor.peek_mapLines shows
  advance := by
    rintro c d ⟨rfl, shows⟩
    exact .inr ⟨Cursor.advance_mapLines shows, shows.advance⟩
  report := by
    rintro c d error ⟨rfl, shows⟩
    exact .inr ⟨c.report_mapLines error, shows⟩
  enter := by
    rintro c d ⟨rfl, shows⟩
    exact ⟨rfl, shows⟩
  leave := by
    rintro c d ⟨rfl, shows⟩
    exact ⟨rfl, shows⟩
  resume := by
    rintro c d error ⟨rfl, shows⟩
    have noted : (c.report error).Shows f := shows
    have resumed := Cursor.synchronize_mapLines noted
    rw [← c.report_mapLines error] at resumed
    exact .inr resumed

end Parse

/-- What was parsed, with its lines renumbered. -/
def Parsed.mapLines (f : Nat → Nat) (parsed : Parsed) : Parsed where
  statements := parsed.statements.map (Stmt.mapLines f)
  errors := parsed.errors.map (SyntaxError.mapLine f)

/-- Parsing renumbered tokens gives the renumbered tree and errors. -/
theorem parse_mapLines {f : Nat → Nat} {tokens : List Token}
    (shows : f 1 = 1 ∨ ∃ token ∈ tokens, token.kind = .endOfInput) (room : Nat) :
    parse room (tokens.map (Token.mapLine f)) = (parse room tokens).mapLines f := by
  have started : (Parse.Simulation.renumbered f).Related (Cursor.start tokens)
      (Cursor.start (tokens.map (Token.mapLine f))) :=
    ⟨by simp [Cursor.start, Cursor.mapLines], shows⟩
  have compared := (Parse.program_agrees (.inl rfl) tokens.length room).run _ _ started
  rw [Nat.zero_add] at compared
  unfold parse
  rw [List.length_map]
  rcases compared with escapes | matched
  · exact absurd escapes (Parse.Simulation.not_escapes id (fun _ => id) _)
  · rcases matched.outcomes with
      ⟨trees, c, d, left, right, rfl, -⟩ | ⟨stop, c, d, left, right, rfl, -⟩
    · simp only [left, right]
      simp [Parsed.mapLines, Cursor.mapLines, Parse.Simulation.renumbered]
    · simp only [left, right]
      simp [Parsed.mapLines, Cursor.mapLines]

/-- **A mistake is reported on the line of a token**, if there is an end-of-input
token. -/
theorem error_line_mem {tokens : List Token}
    (ends : ∃ token ∈ tokens, token.kind = .endOfInput) (room : Nat) :
    ∀ error ∈ (parse room tokens).errors, ∃ token ∈ tokens, token.line = error.line := by
  classical
  -- a renumbering that changes exactly the lines without a token
  let f : Nat → Nat := fun line => if ∃ token ∈ tokens, token.line = line then line else line + 1
  have same : tokens.map (Token.mapLine f) = tokens := by
    refine (List.map_congr_left ?_).trans (List.map_id tokens)
    intro token mem
    have kept : f token.line = token.line := if_pos ⟨token, mem, rfl⟩
    simp [Token.mapLine, kept]
  have renumbered := parse_mapLines (.inr ends) room (f := f)
  rw [same] at renumbered
  have errors : (parse room tokens).errors.map (SyntaxError.mapLine f) =
      (parse room tokens).errors := (congrArg Parsed.errors renumbered).symm
  intro error mem
  have kept := List.map_inj_left.mp (errors.trans (List.map_id _).symm) error mem
  have line : f error.line = error.line := congrArg SyntaxError.line kept
  by_cases found : ∃ token ∈ tokens, token.line = error.line
  · exact found
  · rw [show f error.line = error.line + 1 from if_neg found] at line
    omega

end TernLang
