import TernLang.Proofs.Parser.Excerpt.Simple

/-! # Comparing parses that may come to the end of a part

A statement may be the last one of the part. It is then parsed alike in the text
because it ends with a token of its own, a semicolon or a brace. `Closed` says this of a
step, `Open` only of one that ends in front of such a token: an open step in front of a
closed one is closed (`Open.closed`).

If the part is all that is left of the text, steps that note mistakes agree as well;
otherwise the tokens behind the part and the blocks around it can matter where a
statement is left (`Excerpt.Whole`).
-/

namespace TernLang.Parse

variable {E : Excerpt} {m k : Nat}

/-! ## Statements that may be left after a mistake -/

/-- The step has stopped, or noted a mistake. -/
def Mistaken {α : Type} (c : Cursor) : EStateM.Result ParseStop Cursor α → Prop
  | .ok _ d => c.errors.size < d.errors.size
  | .error _ _ => True

namespace Excerpt

/-- The part is all that is left of the text, and no block is around it. -/
def Whole (E : Excerpt) : Prop :=
  E.tail = [] ∧ E.blocks = 0

/-- The part is not followed by an `else`. -/
def Separate (E : Excerpt) : Prop :=
  ∀ token others, E.tail = token :: others → token.kind ≠ .keyword .elseKw

/-- Two results agree, unless a mistake was noted in a part that is not the whole. -/
def Tracks (E : Excerpt) (k : Nat) (c : Cursor) {α : Type}
    (left right : EStateM.Result ParseStop Cursor α) : Prop :=
  (¬ E.Whole ∧ Mistaken c left) ∨ Agree (E.Shows k) (E.Shows k) left right

end Excerpt

section Tracks

variable {α β : Type} {p q : Parse α} {f g : α → Parse β} {c d : Cursor}

theorem Mistaken.bind (mistaken : Mistaken c (p c)) (travels : ∀ a, (f a).Travels) :
    Mistaken c ((p >>= f) c) := by
  cases first : p c with
  | error stop e =>
      rw [bind_run_error first]
      trivial
  | ok a e =>
      rw [bind_run_ok first]
      rw [first] at mistaken
      cases second : f a e with
      | error stop e' => trivial
      | ok b e' => exact Nat.lt_of_lt_of_le mistaken ((travels a).size_le second)

theorem Mistaken.later {a : α} {e : Cursor} (first : p c = .ok a e) (travels : p.Travels)
    (mistaken : Mistaken e (f a e)) : Mistaken c ((p >>= f) c) := by
  rw [bind_run_ok first]
  cases second : f a e with
  | error stop e' => trivial
  | ok b e' =>
      rw [second] at mistaken
      exact Nat.lt_of_le_of_lt (travels.size_le first) mistaken

theorem Excerpt.Tracks.bind (first : E.Tracks k c (p c) (q d)) (travels : p.Travels)
    (travels' : ∀ a, (f a).Travels)
    (second : ∀ a c' d', p c = .ok a c' → E.Shows k c' d' → E.Tracks k c' (f a c') (g a d')) :
    E.Tracks k c ((p >>= f) c) ((q >>= g) d) := by
  rcases first with ⟨notWhole, mistaken⟩ | agree
  · exact .inl ⟨notWhole, mistaken.bind travels'⟩
  · generalize left : p c = result at agree
    generalize right : q d = result' at agree
    cases agree with
    | error stop shows' =>
        rw [bind_run_error left, bind_run_error right]
        exact .inr (.error stop shows')
    | @ok c' d' a shows' =>
        rcases second a c' d' left shows' with ⟨notWhole, mistaken⟩ | agree
        · exact .inl ⟨notWhole, .later left travels mistaken⟩
        · rw [bind_run_ok left, bind_run_ok right]
          exact .inr agree

theorem Excerpt.Tracks.peek {f g : Token → Parse β}
    (tracks : E.Tracks k c (f c.peek c) (g d.peek d)) :
    E.Tracks k c ((peek >>= f) c) ((peek >>= g) d) :=
  tracks

/-- The second of two steps starts where the first one ended. -/
theorem after_bind_moves (travels : ∀ a, (f a).Travels) (c : Cursor) :
    (p.after c).Moves ((p >>= f).after c) := by
  cases left : p c with
  | ok a e =>
      rw [after_ok left, after, bind_run_ok left]
      exact travels a e
  | error stop e =>
      rw [after_error left, after_error (bind_run_error left)]
      exact .here

/-- Two steps agree where they start, unless the first one comes to the end of the part
or notes a mistake. -/
def Excerpt.Follows (E : Excerpt) (k : Nat) (p q : Parse α) (c d : Cursor) : Prop :=
  (E.tail ≠ [] ∧ ¬ (p.after c).EndsAhead) ∨ E.Tracks k c (p c) (q d)

theorem Excerpt.Follows.mono {k' : Nat} (follows : E.Follows k p q c d) (more : k ≤ k') :
    E.Follows k' p q c d :=
  follows.imp_right fun tracks => tracks.imp_right fun agree =>
    agree.mono (fun _ _ shows' => shows'.mono more) fun _ _ shows' => shows'.mono more

theorem Excerpt.Follows.congr {p' q' : Parse α} (left : p c = p' c) (right : q d = q' d)
    (follows : E.Follows k p' q' c d) : E.Follows k p q c d := by
  unfold Excerpt.Follows Parse.after at follows ⊢
  rwa [left, right]

theorem Excerpt.Follows.bind (first : E.Follows k p q c d) (travels : p.Travels)
    (travels' : ∀ a, (f a).Travels)
    (second : ∀ a c' d', p c = .ok a c' → E.Shows k c' d' → E.Follows k (f a) (g a) c' d') :
    E.Follows k (p >>= f) (q >>= g) c d := by
  by_cases ended : E.tail ≠ [] ∧ ¬ ((p >>= f).after c).EndsAhead
  · exact .inl ended
  · -- if both together do not come to the end of the part, neither does one of them
    have start := first.resolve_left fun ⟨more, past⟩ =>
      ended ⟨more, fun later => past ((after_bind_moves travels' c).endsAhead later)⟩
    refine .inr (start.bind travels travels' fun a c' d' left shows' => ?_)
    refine (second a c' d' left shows').resolve_left fun ⟨more, past⟩ => ?_
    rw [after, bind_run_ok left] at ended
    exact ended ⟨more, past⟩

end Tracks

/-- Two steps agree, unless the first one comes to the end of the part or notes a
mistake. -/
structure Open (E : Excerpt) (m : Nat) {α : Type} (p q : Parse α) : Prop where
  travels : p.Travels
  run : ∀ k ≤ m, ∀ c d, E.Shows k c d → E.Follows k p q c d

/-- Two steps agree, unless the first one notes a mistake. They succeed only by reading
a token that ends a statement. -/
structure Closed (E : Excerpt) (m : Nat) {α : Type} (p q : Parse α) : Prop where
  travels : p.Travels
  ends : EndsWith (·.endsStatement = true) p
  run : ∀ k ≤ m, ∀ c d, E.Shows k c d → E.Tracks k c (p c) (q d)

section Rules

variable {α β : Type} {p q : Parse α} {f g : α → Parse β}

/-- A closed step is open: the end of the part is no excuse for it. -/
theorem Closed.open (closed : Closed E m p q) : Open E m p q :=
  ⟨closed.travels, fun k bound c d shows' => .inr (closed.run k bound c d shows')⟩

theorem Steady.open (steady : Steady E m p q) (travels : p.Travels) : Open E m p q where
  travels := travels
  run k bound c d shows' := by
    by_cases ahead : E.tail = [] ∨ c.EndsAhead
    · have agree := steady k bound c d ⟨shows', ahead⟩
      refine .inr (.inr (agree.mono ?_ ?_))
      · exact fun _ _ before => before.toShows
      · exact fun _ _ before => before.toShows
    · rw [not_or] at ahead
      exact .inl ⟨ahead.1, fun later => ahead.2 ((travels c).endsAhead later)⟩

/-- A step that agrees wherever the next token is one of the part. -/
theorem open_of_visible (travels : p.Travels)
    (run : ∀ k c d, E.Shows k c d → E.tail = [] ∨ c.rest ≠ [] →
      Agree (E.Shows k) (E.Shows k) (p c) (q d)) : Open E m p q where
  travels := travels
  run k _ c d shows' := by
    by_cases visible : E.tail = [] ∨ c.rest ≠ []
    · exact .inr (.inr (run k c d shows' visible))
    · rw [not_or] at visible
      refine .inl ⟨visible.1, fun later => visible.2 ?_⟩
      exact ((travels c).endsAhead later).rest_ne_nil

theorem Open.bind (first : Open E m p q) (second : ∀ a, Open E m (f a) (g a)) :
    Open E m (p >>= f) (q >>= g) where
  travels := first.travels.bind fun a => (second a).travels
  run k bound c d shows' := (first.run k bound c d shows').bind first.travels
    (fun a => (second a).travels) fun a c' d' _ shows' => (second a).run k bound c' d' shows'

theorem Open.map (step : Open E m p q) (f : α → β) : Open E m (f <$> p) (f <$> q) := by
  rw [map_eq_pure_bind, map_eq_pure_bind]
  exact step.bind fun a => (Steady.pure (f a)).open (pure_travels _)

/-- An open step in front of a closed one: if it comes to the end of the part, the
second one finds no token to end with. -/
theorem Open.closed (first : Open E m p q) (second : ∀ a, Closed E m (f a) (g a)) :
    Closed E m (p >>= f) (q >>= g) where
  travels := first.travels.bind fun a => (second a).travels
  ends := first.travels.endsWith fun a => (second a).ends
  run k bound c d shows' := by
    have travels' := fun a => (second a).travels
    rcases first.run k bound c d shows' with ⟨more, past⟩ | start
    · refine .inl ⟨fun whole => more whole.1, ?_⟩
      cases left : p c with
      | error stop e =>
          rw [bind_run_error left]
          trivial
      | ok a e =>
          refine .later left first.travels ?_
          rw [after_ok left] at past
          cases right : f a e with
          | error stop e' => trivial
          | ok b e' => exact absurd ((second a).ends e b e' right).mem past
    · exact start.bind first.travels travels' fun a c' d' _ shows' =>
        (second a).run k bound c' d' shows'

/-- A closed step in front of one that agrees also at the end of the part. -/
theorem Closed.bind (first : Closed E m p q) (travels : ∀ a, (f a).Travels)
    (second : ∀ k ≤ m, ∀ a c d, E.Shows k c d → E.Tracks k c (f a c) (g a d)) :
    Closed E m (p >>= f) (q >>= g) where
  travels := first.travels.bind travels
  ends := first.ends.bind travels
  run k bound c d shows' := (first.run k bound c d shows').bind first.travels travels
    fun a c' d' _ shows' => second k bound a c' d' shows'

theorem Closed.map (step : Closed E m p q) (f : α → β) :
    Closed E m (do let a ← p; pure (f a)) (do let a ← q; pure (f a)) :=
  step.bind (fun a => pure_travels (f a)) fun _ _ a _ _ shows' => .inr (.ok (f a) shows')

/-- A simple statement agrees also if it is the last one of the part. -/
theorem Finishes.closed (finishes : Finishes E m p q) : Closed E m p q where
  travels := finishes.travels
  ends c a d run := (finishes.ends c a d run).mono (by rintro _ rfl; rfl)
  run k bound c d shows' := by
    by_cases ahead : E.tail = [] ∨ c.EndsAhead
    · have agree := finishes.run k bound c d ⟨shows', ahead⟩
      exact .inr (agree.mono (fun _ _ shows' => shows') fun _ _ before => before.toShows)
    · rw [not_or] at ahead
      refine .inl ⟨fun whole => ahead.1 whole.1, ?_⟩
      cases left : p c with
      | error stop e => trivial
      | ok a e =>
          obtain ⟨token, mem, kind⟩ := (finishes.ends c a e left).mem
          exact absurd ⟨token, mem, by rw [kind]; rfl⟩ ahead.2

theorem closed_tooDeep : Closed E m (tooDeep : Parse α) tooDeep where
  travels := travels_of_stay fun _ => rfl
  ends := by
    intro c a d run
    cases run
  run _ _ _ _ shows' := .inr (.error .tooDeep shows')

/-! ## Primitive steps -/

theorem peek_open : Open E m peek peek := by
  refine open_of_visible peek_travels fun k c d shows' visible => ?_
  rw [peek, peek, shows'.peek visible]
  exact .ok _ shows'

theorem next_open : Open E m next next := by
  refine open_of_visible next_travels fun k c d shows' visible => ?_
  rw [next, next, shows'.peek visible]
  exact .ok _ (shows'.advance visible)

theorem at_open (symbol : Symbol) : Open E m (at? symbol) (at? symbol) :=
  (at_steady symbol).open (at_travels symbol)

theorem expect_agree {symbol : Symbol} {expected : Expectation} {c d : Cursor}
    (shows' : E.Shows k c d) (visible : E.tail = [] ∨ c.rest ≠ []) :
    Agree (E.Shows k) (E.Shows k) (expect symbol expected c) (expect symbol expected d) := by
  unfold expect
  rw [Cursor.atSymbol, Cursor.atSymbol, shows'.peek visible]
  split
  · exact .ok () (shows'.advance visible)
  · rw [fail, fail, shows'.peek visible]
    exact .error _ shows'

theorem expect_open (symbol : Symbol) (expected : Expectation) :
    Open E m (expect symbol expected) (expect symbol expected) :=
  open_of_visible (expect_travels symbol expected) fun _ _ _ => expect_agree

/-- At the end of the part the brace is missing, which is a mistake. -/
theorem closed_brace (expected : Expectation) :
    Closed E m (expect .rightBrace expected) (expect .rightBrace expected) where
  travels := expect_travels _ _
  ends := endsWith_expect (P := (·.endsStatement = true)) rfl _
  run k bound c d shows' := by
    by_cases visible : E.tail = [] ∨ c.rest ≠ []
    · exact .inr (expect_agree shows' visible)
    · rw [not_or, ne_eq, Classical.not_not] at visible
      refine .inl ⟨fun whole => visible.1 whole.1, ?_⟩
      have other : c.atSymbol .rightBrace = false := by
        rw [Cursor.atSymbol, Cursor.peek, visible.2]
        rfl
      rw [expect, other]
      trivial

theorem Excerpt.Shows.leave {c d : Cursor} (shows' : E.Shows k c d) (inside : 0 < c.openBlocks) :
    E.Shows k { c with openBlocks := c.openBlocks - 1 }
      { d with openBlocks := d.openBlocks - 1 } where
  rest := shows'.rest
  last := shows'.last
  errors := shows'.errors
  blocks := by
    have blocks := shows'.blocks
    show d.openBlocks - 1 = c.openBlocks - 1 + E.blocks
    omega
  short := shows'.short

/-- An open step is open one block deeper as well. -/
theorem insideBlock_open (step : Open E m p q) :
    Open E m (insideBlock p) (insideBlock q) where
  travels := travels_insideBlock step.travels
  run k bound c d shows' := by
    have entered : E.Shows k { c with openBlocks := c.openBlocks + 1 }
        { d with openBlocks := d.openBlocks + 1 } :=
      { shows' with blocks := by simp only [shows'.blocks]; omega }
    -- the block that was entered is still open when the step ends
    have inside := (step.travels { c with openBlocks := c.openBlocks + 1 }).openBlocks
    have same : ((insideBlock p).after c).rest =
        (p.after { c with openBlocks := c.openBlocks + 1 }).rest := by
      unfold after insideBlock
      cases p { c with openBlocks := c.openBlocks + 1 } <;> rfl
    rcases step.run k bound _ _ entered with ⟨more, past⟩ | tracks
    · refine .inl ⟨more, ?_⟩
      rw [Cursor.EndsAhead, same]
      exact past
    · refine .inr ?_
      generalize left : p { c with openBlocks := c.openBlocks + 1 } = result at tracks
      generalize right : q { d with openBlocks := d.openBlocks + 1 } = result' at tracks
      rcases tracks with ⟨notWhole, mistaken⟩ | agree
      · refine .inl ⟨notWhole, ?_⟩
        cases result with
        | ok a e =>
            rw [insideBlock_run_ok left]
            exact mistaken
        | error stop e =>
            rw [insideBlock_run_error left]
            trivial
      · cases agree with
        | @ok e e' a shows' =>
            rw [after_ok left] at inside
            rw [insideBlock_run_ok left, insideBlock_run_ok right]
            exact .inr (.ok a (shows'.leave (inside ▸ Nat.succ_pos _)))
        | @error e e' stop shows' =>
            rw [after_error left] at inside
            rw [insideBlock_run_error left, insideBlock_run_error right]
            exact .inr (.error stop (shows'.leave (inside ▸ Nat.succ_pos _)))

end Rules

/-! ## Leaving a statement -/

namespace Excerpt

variable {c d : Cursor}

theorem Shows.skipStatement (whole : E.Whole) (fuel : Nat) (shows' : E.Shows k c d)
    (same : d.last = c.last) : E.Shows k (c.skipStatement fuel) (d.skipStatement fuel) := by
  induction fuel generalizing c d with
  | zero => exact shows'
  | succ fuel ih =>
      have peeked := shows'.peek (.inl whole.1)
      have blocks : d.openBlocks = c.openBlocks := by rw [shows'.blocks, whole.2, Nat.add_zero]
      have closing : d.atClosingBrace = c.atClosingBrace := by
        rw [Cursor.atClosingBrace, Cursor.atClosingBrace, Cursor.atSymbol, Cursor.atSymbol,
          peeked, blocks]
      unfold Cursor.skipStatement
      rw [Cursor.atEnd, Cursor.atEnd, peeked, same, closing]
      split
      · exact shows'
      · refine ih (shows'.advance (.inl whole.1)) ?_
        simp only [Cursor.advance, peeked]
        split <;> rfl

theorem Shows.synchronize (whole : E.Whole) (shows' : E.Shows k c d) :
    E.Shows k c.synchronize d.synchronize := by
  have peeked := shows'.peek (.inl whole.1)
  have blocks : d.openBlocks = c.openBlocks := by rw [shows'.blocks, whole.2, Nat.add_zero]
  have closing : d.atClosingBrace = c.atClosingBrace := by
    rw [Cursor.atClosingBrace, Cursor.atClosingBrace, Cursor.atSymbol, Cursor.atSymbol,
      peeked, blocks]
  have length : d.rest.length = c.rest.length := by rw [shows'.rest, whole.1, List.append_nil]
  unfold Cursor.synchronize
  rw [closing, length]
  split
  · exact shows'
  · refine (shows'.advance (.inl whole.1)).skipStatement whole _ ?_
    simp only [Cursor.advance, peeked]
    split <;> rfl

end Excerpt

/-- Leaving a statement reads at least one token, unless some were read before or the
brace that closes the open block comes next. -/
theorem synchronize_length_lt {c d : Cursor} (moves : c.Moves d)
    (more : c.peek.kind ≠ .endOfInput) (inside : c.atClosingBrace = false) :
    d.synchronize.rest.length < c.rest.length := by
  by_cases same : d.rest = c.rest
  · have peeked : d.peek = c.peek := by
      rw [Cursor.peek, same, Cursor.rest_eq_peek_cons more]
    have outside : d.atClosingBrace = false := by
      rw [Cursor.atClosingBrace, Cursor.atSymbol, moves.openBlocks, peeked]
      exact inside
    have skipped := (Cursor.moves_skipStatement d.rest.length d.advance).length_le
    have some : d.rest = d.peek :: d.rest.tail := Cursor.rest_eq_peek_cons (peeked ▸ more)
    have first : d.rest.length = d.advance.rest.length + 1 := by
      rw [Cursor.advance_eq (peeked ▸ more), ← List.length_cons, ← some]
    rw [Cursor.synchronize, outside, ← same]
    exact Nat.lt_of_le_of_lt skipped (by omega)
  · exact Nat.lt_of_le_of_lt (Cursor.moves_synchronize d).length_le (moves.length_lt same)

/-- Two declarations agree, unless the first one notes a mistake. They read at least one
token if there is one that does not close a block. -/
structure Recovers (E : Excerpt) (m : Nat) (p q : Parse (Option Stmt)) : Prop where
  travels : p.Travels
  reads : ∀ c a d, p c = .ok a d → c.peek.kind ≠ .endOfInput → c.atClosingBrace = false →
    d.rest.length < c.rest.length
  run : ∀ k ≤ m, ∀ c d, E.Shows k c d → E.Tracks k c (p c) (q d)

theorem recovers_tooDeep : Recovers E m tooDeep tooDeep where
  travels := travels_of_stay fun _ => rfl
  reads := by
    intro c a d run
    cases run
  run _ _ _ _ shows' := .inr (.error .tooDeep shows')

/-- A closed step with recovery around it agrees, and it reads a token if it can. -/
theorem Closed.recovers {p q : Parse Stmt} (closed : Closed E m p q) :
    Recovers E m (recover p) (recover q) where
  travels := travels_recover closed.travels
  reads := by
    intro c a d run more inside
    obtain ⟨stmt, rfl, parsed⟩ | ⟨rfl, stop, error, e, failed, rfl⟩ := of_recover_ok run
    · exact (closed.ends c stmt _ parsed).length_lt
    · have moves := closed.travels.error failed
      exact synchronize_length_lt (moves.trans (.note error .here)) more inside
  run := by
    intro k bound c d shows'
    -- a mistake that is noted stays noted when the statement is left
    have noted : ∀ {e : Cursor} {error : SyntaxError}, c.Moves e →
        Mistaken c (.ok (none : Option Stmt) (e.report error).synchronize) := by
      intro e error moves
      have kept := (moves.trans (.note error .here)).errors_size_le
      have left := (Cursor.moves_synchronize (e.report error)).errors_size_le
      have grown := moves.errors_size_le
      simp only [Cursor.report, Array.size_push] at left
      exact Nat.lt_of_lt_of_le (Nat.lt_succ_of_le grown) left
    have tracks := closed.run k bound c d shows'
    generalize left : p c = result at tracks
    generalize right : q d = result' at tracks
    by_cases whole : E.Whole
    · have agree := tracks.resolve_left fun excused => excused.1 whole
      refine .inr ?_
      cases agree with
      | ok stmt shows' =>
          rw [recover_run_ok left, recover_run_ok right]
          exact .ok _ shows'
      | error stop shows' =>
          cases stop with
          | mistake error =>
              rw [recover_run_mistake left, recover_run_mistake right]
              exact .ok none ((shows'.report error).synchronize whole)
          | tooDeep =>
              rw [recover_run_tooDeep left, recover_run_tooDeep right,
                shows'.peek (.inl whole.1)]
              exact .ok none ((shows'.report _).synchronize whole)
    · cases result with
      | error stop e =>
          refine .inl ⟨whole, ?_⟩
          have moves := closed.travels.error left
          cases stop with
          | mistake error =>
              rw [recover_run_mistake left]
              exact noted moves
          | tooDeep =>
              rw [recover_run_tooDeep left]
              exact noted moves
      | ok stmt e =>
          rw [recover_run_ok left]
          rcases tracks with ⟨-, mistaken⟩ | agree
          · exact .inl ⟨whole, mistaken⟩
          · cases agree with
            | ok _ shows' =>
                rw [recover_run_ok right]
                exact .inr (.ok _ shows')

end TernLang.Parse
