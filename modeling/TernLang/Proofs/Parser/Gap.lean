import TernLang.Proofs.Grammar.Braces
import TernLang.Proofs.Parser.Pieces

/-! # A block without statements

A `Gap` is a block without statements, with all the tokens behind it. The parse of a
program with a gap is compared with the parse of the program that has a body in its place.

In front of the gap the two parses see the same tokens (`Gap.Faces`), and behind it they
see the same tokens again, where the second one has noted the mistakes of the body
(`Excerpt.noted`). **A step does the same in both parses as long as it does not come to the
gap** (`Gap.Faces.run`), and as soon as it starts behind it (`Comparable.run_behind`). What
bounds the loops of the two parses may differ, as one reads more tokens than the other.
-/

namespace TernLang.Parse

open Grammar

/-- A block without statements: the lines of its braces, and the tokens behind it. -/
structure Gap where
  opening : Nat
  closing : Nat
  behind : List Token

namespace Gap

/-- The tokens from the gap on, with a body in it. -/
def holding (gap : Gap) (body : List Token) : List Token :=
  sym .leftBrace gap.opening :: (body ++ sym .rightBrace gap.closing :: gap.behind)

/-- The gap is ahead, and no mistake was noted. -/
structure Ahead (gap : Gap) (c : Cursor) : Prop where
  front : ∃ tokens, c.rest = tokens ++ gap.holding []
  clean : c.errors = #[]

/-- The gap was passed without a mistake. -/
structure Passed (gap : Gap) (c : Cursor) : Prop where
  short : c.rest.length ≤ gap.behind.length
  clean : c.errors = #[]

/-- The two cursors are at the same place in front of the gap. The second one has a body
ahead. -/
structure Faces (gap : Gap) (body : List Token) (c d : Cursor) : Prop where
  front : ∃ tokens, c.rest = tokens ++ gap.holding [] ∧ d.rest = tokens ++ gap.holding body
  clean : c.errors = #[]
  clean' : d.errors = #[]
  blocks : d.openBlocks = c.openBlocks

variable {gap : Gap} {body tokens : List Token} {c d e : Cursor}

theorem Ahead.length_le (ahead : gap.Ahead c) : (gap.holding []).length ≤ c.rest.length := by
  obtain ⟨tokens, rest⟩ := ahead.front
  rw [rest, List.length_append]
  exact Nat.le_add_left _ _

/-- A gap ahead has not been passed. -/
theorem Ahead.not_passed (ahead : gap.Ahead c) : ¬ gap.Passed c := by
  intro passed
  have long := ahead.length_le
  have short := passed.short
  simp only [holding, List.nil_append, List.length_cons] at long
  omega

/-- Reading tokens without an opening brace does not come to the gap. -/
theorem Ahead.reads (ahead : gap.Ahead c) (reads : c.Reads tokens d) (other : Braceless tokens) :
    gap.Ahead d := by
  obtain ⟨front, rest⟩ := ahead.front
  refine ⟨?_, reads.errors.trans ahead.clean⟩
  rw [reads.rest, List.append_eq_append_iff] at rest
  rcases rest with ⟨others, -, rest⟩ | ⟨others, rfl, rest⟩
  · exact ⟨others, rest⟩
  · cases others with
    | nil => exact ⟨[], rest.symm⟩
    | cons token others =>
        -- the brace of the gap would be among the tokens
        obtain ⟨brace, -⟩ := List.cons.inj rest
        exact absurd (brace ▸ rfl) (other token (List.mem_append_right front List.mem_cons_self))

/-- Reading declarations comes not to the gap, or past it. -/
theorem Ahead.reads_closed (ahead : gap.Ahead c) (reads : c.Reads tokens d)
    (ends : tokens = [] ∨ EndsClosed tokens) : gap.Ahead d ∨ gap.Passed d := by
  obtain ⟨front, rest⟩ := ahead.front
  have clean := reads.errors.trans ahead.clean
  obtain rfl | ⟨inner, last, rfl, kind⟩ := ends
  · exact .inl (reads.eq_of_nil ▸ ahead)
  rw [reads.rest, List.append_eq_append_iff] at rest
  rcases rest with ⟨others, -, rest⟩ | ⟨others, same, rest⟩
  · exact .inl ⟨⟨others, rest⟩, clean⟩
  · rcases others with - | ⟨first, - | ⟨second, others⟩⟩
    · exact .inl ⟨⟨[], rest.symm⟩, clean⟩
    · -- the last token that is read would be the opening brace
      obtain ⟨-, single⟩ := List.append_inj' same rfl
      obtain ⟨brace, -⟩ := List.cons.inj rest
      obtain ⟨rfl, -⟩ := List.cons.inj single
      rw [← brace] at kind
      cases kind
    · obtain ⟨-, rest⟩ := List.cons.inj rest
      obtain ⟨-, rest⟩ := List.cons.inj rest
      have behind : gap.behind = others ++ d.rest := rest
      refine .inr ⟨?_, clean⟩
      rw [behind, List.length_append]
      exact Nat.le_add_left _ _

/-! ## In front of the gap -/

/-- The gap is ahead of both cursors that face each other over it. -/
theorem Faces.ahead (faces : gap.Faces body c d) : gap.Ahead c := by
  obtain ⟨tokens, rest, -⟩ := faces.front
  exact ⟨⟨tokens, rest⟩, faces.clean⟩

/-- The filled text is longer by the body. -/
theorem Faces.length_eq (faces : gap.Faces body c d) :
    d.rest.length = c.rest.length + body.length := by
  obtain ⟨tokens, rest, rest'⟩ := faces.front
  simp only [rest, rest', holding, List.length_append, List.length_cons, List.length_nil]
  omega

/-- Cursors in front of the gap see the same token. -/
theorem Faces.peek (faces : gap.Faces body c d) : d.peek = c.peek := by
  obtain ⟨tokens, rest, rest'⟩ := faces.front
  rw [Cursor.peek, Cursor.peek, rest, rest']
  cases tokens <;> rfl

/-- Unless it is the brace of the gap, the same token is read. -/
theorem Faces.advance (faces : gap.Faces body c d) :
    c.advance.rest.length < (gap.holding []).length ∨ gap.Faces body c.advance d.advance := by
  have peeked := faces.peek
  obtain ⟨tokens, rest, rest'⟩ := faces.front
  by_cases atEnd : c.peek.kind = .endOfInput
  · have atEnd' : d.peek.kind = .endOfInput := by rwa [peeked]
    rw [Cursor.advance, Cursor.advance, if_pos atEnd, if_pos atEnd']
    exact .inr ⟨⟨tokens, rest, rest'⟩, faces.clean, faces.clean', faces.blocks⟩
  · rw [Cursor.advance_eq atEnd, Cursor.advance_eq (peeked ▸ atEnd)]
    cases tokens with
    | nil =>
        refine .inl ?_
        show c.rest.tail.length < _
        rw [rest, List.nil_append, List.length_tail]
        exact Nat.sub_lt (Nat.succ_pos _) Nat.one_pos
    | cons token tokens =>
        refine .inr ⟨⟨tokens, ?_, ?_⟩, faces.clean, faces.clean', faces.blocks⟩
        · exact congrArg List.tail rest
        · exact congrArg List.tail rest'

/-- The parse with the gap compared with the one that has a body in its place, as long as
the gap is ahead and no mistake is noted. -/
def facing (gap : Gap) (body : List Token) : Simulation where
  lines := id
  lenient := False
  Related := gap.Faces body
  Beyond c := c.rest.length < (gap.holding []).length ∨ c.errors ≠ #[]
  beyond_moves := by
    rintro c d (short | mistaken) moves
    · exact .inl (Nat.lt_of_le_of_lt moves.length_le short)
    · exact .inr fun clean => mistaken (moves.clean clean)
  beyond_leave := id
  overflowed lenient _ := lenient.elim
  peek faces := by simpa using faces.peek
  advance faces := faces.advance.imp_left .inl
  report error _ := .inl (.inr (by simp [Cursor.report]))
  enter faces := ⟨faces.front, faces.clean, faces.clean', congrArg (· + 1) faces.blocks⟩
  leave faces := ⟨faces.front, faces.clean, faces.clean', congrArg (· - 1) faces.blocks⟩
  resume {c d} error _ := by
    refine .inl (.inr fun clean => ?_)
    have before := (Cursor.moves_synchronize (c.report error)).clean clean
    simp [Cursor.report] at before

@[simp] theorem facing_lines (gap : Gap) (body : List Token) : (gap.facing body).lines = id := rfl

end Gap

/-! ## Behind the gap -/

/-- The part is all of the text, in front of which some mistakes were noted. -/
def Excerpt.noted (errors : Array SyntaxError) : Excerpt :=
  ⟨[], errors, 0⟩

section Noted

variable {α : Type} {errors : Array SyntaxError} {k : Nat} {c d e : Cursor}

/-- Texts that differ in noted errors alone end at the same place. -/
theorem Excerpt.noted_separate : (Excerpt.noted errors).Separate :=
  nofun

/-- Loop bounds fit when both are at least the bound of the part. -/
theorem Excerpt.noted_fits {m n n' : Nat} (part : m ≤ n) (text : m ≤ n') :
    (Excerpt.noted errors).Fits m n n' :=
  ⟨part, text⟩

theorem Excerpt.Shows.rest_eq (shows' : (Excerpt.noted errors).Shows k c d) : d.rest = c.rest :=
  shows'.rest.trans (List.append_nil _)

theorem Excerpt.Shows.tight (shows' : (Excerpt.noted errors).Shows k c d) :
    (Excerpt.noted errors).Shows c.rest.length c d :=
  { shows' with short := Nat.le_refl _ }

/-- Noting mistakes before makes no difference for a step that succeeds. -/
theorem Excerpt.Follows.run_ok {p q : Parse α} {a : α}
    (follows : (Excerpt.noted errors).Follows k p q c d) (run : p c = .ok a e) :
    ∃ e', q d = .ok a e' ∧ (Excerpt.noted errors).Shows e.rest.length e e' := by
  have tracks := follows.resolve_left fun ended => ended.1 rfl
  have agree := tracks.resolve_left fun excused => excused.1 ⟨rfl, rfl⟩
  rw [run] at agree
  generalize q d = result at agree
  cases agree with
  | ok _ shown => exact ⟨_, rfl, shown.tight⟩

/-- A step that succeeds here succeeds with errors noted before, and adds none. -/
theorem Open.run_ok {p q : Parse α} {a : α} (step : Open (.noted errors) k p q)
    (run : p c = .ok a e) (shows' : (Excerpt.noted errors).Shows k c d) :
    ∃ e', q d = .ok a e' ∧ (Excerpt.noted errors).Shows e.rest.length e e' :=
  (step.run k (Nat.le_refl k) c d shows').run_ok run

end Noted

/-! ## Steps that can be compared -/

/-- The step can be compared whatever bounds its loops, and also in front of a gap. -/
structure Comparable {α : Type} (p : Nat → Parse α) : Prop where
  resizes {E : Excerpt} {m n n' : Nat} : E.Fits m n n' → E.Separate → Open E m (p n) (p n')
  agrees (gap : Gap) (body : List Token) (n : Nat) : Agrees (gap.facing body) id (p n) (p n)

namespace Comparable

variable {α : Type} {p : Nat → Parse α} {n n' : Nat} {a : α} {c d e : Cursor}

/-- Behind the gap a step does the same where mistakes were noted before. -/
theorem run_behind (comparable : Comparable p) {errors : Array SyntaxError}
    (run : p n c = .ok a e) (shows' : (Excerpt.noted errors).Shows c.rest.length c d)
    (fits : c.rest.length ≤ n) (fits' : c.rest.length ≤ n') :
    ∃ e', p n' d = .ok a e' ∧ (Excerpt.noted errors).Shows e.rest.length e e' :=
  (comparable.resizes (Excerpt.noted_fits fits fits') Excerpt.noted_separate).run_ok run shows'

/-- In front of the gap a step does the same where a body is ahead. -/
theorem run_ahead (comparable : Comparable p) {gap : Gap} {body : List Token}
    (run : p n c = .ok a e) (faces : gap.Faces body c d) (ahead : gap.Ahead e)
    (fits : c.rest.length ≤ n) (fits' : d.rest.length ≤ n') :
    ∃ e', p n' d = .ok a e' ∧ gap.Faces body e e' ∧ e'.rest.length ≤ n' := by
  have here : (Excerpt.noted #[]).Shows c.rest.length c c :=
    ⟨(List.append_nil _).symm, .inl rfl, Array.empty_append.symm, rfl, Nat.le_refl _⟩
  have longer := faces.length_eq
  obtain ⟨e₁, resized, shown⟩ := comparable.run_behind run here fits (show _ ≤ n' by omega)
  have clean : e₁.errors = #[] := by rw [shown.errors, ahead.clean]; rfl
  rcases (comparable.agrees gap body n').run c d faces with escapes | matched
  · rw [resized] at escapes
    rcases escapes with short | mistaken
    · rw [shown.rest_eq] at short
      exact absurd short (Nat.not_lt.mpr ahead.length_le)
    · exact absurd clean mistaken
  · rw [resized] at matched
    obtain ⟨_, _, e', left, right, related⟩ | ⟨_, _, _, left, _⟩ := matched.outcomes
    · cases left
      have shorter := ((comparable.agrees gap body n').travels.ok right).length_le
      refine ⟨e', right, ⟨?_, ahead.clean, related.clean', ?_⟩, Nat.le_trans shorter fits'⟩
      · rw [← shown.rest_eq]
        exact related.front
      · exact related.blocks.trans shown.blocks
    · cases left

theorem condition {q : Nat → Parse Expr} (comparable : Comparable q)
    (opening closing : Expectation) : Comparable fun n => condition (q n) opening closing where
  resizes fits separate := condition_open (comparable.resizes fits separate) opening closing
  agrees gap body n :=
    (expect_agrees _ _).bind fun _ => (comparable.agrees gap body n).bind fun _ =>
      (expect_agrees _ _).bind fun _ => .pure _

theorem expression (room : Nat) : Comparable (expression · room) where
  resizes fits _ := (expression_steady fits room).open (expression_travels _ room)
  agrees gap body n := by
    simpa using expression_agrees (S := gap.facing body) (.inl rfl) n room

theorem forClauses (room : Nat) : Comparable (forClauses · room) where
  resizes fits _ := forClauses_open fits room
  agrees gap body n := by
    have value := (expression room).agrees gap body n
    have initial : Agrees (gap.facing body) id (forInitial n room) (forInitial n room) := by
      simpa using forInitial_agrees (S := gap.facing body) (.inl rfl) n room
    have test : Agrees (gap.facing body) id (forCondition (Parse.expression n room))
        (forCondition (Parse.expression n room)) := by
      simpa using forCondition_agrees (S := gap.facing body) (by simpa using value)
    refine (expect_agrees _ _).bind fun _ => initial.bind fun initial => test.bind fun test => ?_
    refine (expect_agrees _ _).bind fun _ => (at_agrees _).bind fun closed => ?_
    have later : ∀ advance : Option Expr, Agrees (gap.facing body) id
        (do
          expect .rightParen .parenAfterClauses
          pure (initial, test, advance))
        (do
          expect .rightParen .parenAfterClauses
          pure (initial, test, advance)) :=
      fun advance => (expect_agrees _ _).bind fun _ => .pure _
    have given : Agrees (gap.facing body) id (some <$> Parse.expression n room)
        (some <$> Parse.expression n room) := value.map fun _ => rfl
    exact .ite (.bind (.pure none) later) (given.bind later)

theorem statement (room : Nat) : Comparable (statement · room) where
  resizes fits separate := (statement_closed fits separate room).open
  agrees gap body n := by
    simpa using statement_agrees (S := gap.facing body) (.inl rfl) n room

theorem declaration (room : Nat) : Comparable (declaration · room) where
  resizes fits separate := by
    have recovers := declaration_recovers fits separate room
    exact ⟨recovers.travels, fun k bound c d shows' => .inr (recovers.run k bound c d shows')⟩
  agrees gap body n := by
    simpa using declaration_agrees (S := gap.facing body) (.inl rfl) n room

end Comparable

end TernLang.Parse
