import TernLang.Proofs.Parser.Reading

/-! # Parsing a part of a text

A part of a text can be parsed on its own or where it stands. `Excerpt.Shows` relates
the cursors of the two parses: the second one sees the tokens of the part and those
behind it, has noted some mistakes before, and may be inside some blocks. The two
parses may bound their loops differently, as long as both bounds suffice.

They agree as long as the first one does not come to the end of the part, where the
second one goes on. No expression reads past a token that ends a statement
(`TokenKind.endsStatement`), so an expression is parsed alike if such a token is ahead
(`Excerpt.Before`). `Steady` says this of a parsing step; it has one rule for each way
to build a step.
-/

namespace TernLang

/-- The token is neither the end of the input nor one that ends a statement. -/
def TokenKind.Inner (kind : TokenKind) : Prop :=
  kind ≠ .endOfInput ∧ kind.endsStatement = false

instance (kind : TokenKind) : Decidable kind.Inner :=
  inferInstanceAs (Decidable (_ ∧ _))

namespace Cursor

/-- A token that ends a statement is still to come. -/
def EndsAhead (c : Cursor) : Prop :=
  ∃ token ∈ c.rest, token.kind.endsStatement = true

theorem EndsAhead.rest_ne_nil {c : Cursor} (ahead : c.EndsAhead) : c.rest ≠ [] := by
  obtain ⟨token, mem, -⟩ := ahead
  exact List.ne_nil_of_mem mem

/-- Reading a token other than the end moves it from what is ahead to what is behind. -/
theorem advance_eq {c : Cursor} (more : c.peek.kind ≠ .endOfInput) :
    c.advance = { c with rest := c.rest.tail, last := some c.peek } := by
  simp only [advance, if_neg more]

end Cursor

namespace Parse

/-- Where a part of a text stands: the tokens behind it, the mistakes that were noted
before it, and the number of blocks around it. -/
structure Excerpt where
  tail : List Token
  errors : Array SyntaxError
  blocks : Nat

namespace Excerpt

/-- The cursor `d` is in the text where `c` is in the part. At most `k` tokens of the
part are left. -/
structure Shows (E : Excerpt) (k : Nat) (c d : Cursor) : Prop where
  rest : d.rest = c.rest ++ E.tail
  last : d.last = c.last ∨ c.rest ≠ []
  errors : d.errors = E.errors ++ c.errors
  blocks : d.openBlocks = c.openBlocks + E.blocks
  short : c.rest.length ≤ k

/-- As `Shows`, where the part holds a token that ends a statement, unless the part is
all that is left of the text. -/
structure Before (E : Excerpt) (k : Nat) (c d : Cursor) : Prop extends E.Shows k c d where
  ahead : E.tail = [] ∨ c.EndsAhead

variable {E : Excerpt} {k k' : Nat} {c d : Cursor}

/-- What a cursor shows of an excerpt fixes it, up to the last token read. -/
theorem Shows.eq_mk (shows' : E.Shows k c d) :
    d = ⟨c.rest ++ E.tail, d.last, E.errors ++ c.errors, c.openBlocks + E.blocks⟩ := by
  rw [← shows'.rest, ← shows'.errors, ← shows'.blocks]

theorem Shows.mono (shows' : E.Shows k c d) (more : k ≤ k') : E.Shows k' c d :=
  { shows' with short := Nat.le_trans shows'.short more }

theorem Before.mono (before : E.Before k c d) (more : k ≤ k') : E.Before k' c d :=
  ⟨before.toShows.mono more, before.ahead⟩

theorem Before.visible (before : E.Before k c d) : E.tail = [] ∨ c.rest ≠ [] :=
  before.ahead.imp_right Cursor.EndsAhead.rest_ne_nil

/-- A cursor and the one that shows it see the same token, if any is left. -/
theorem Shows.peek (shows' : E.Shows k c d) (visible : E.tail = [] ∨ c.rest ≠ []) :
    d.peek = c.peek := by
  cases left : c.rest with
  | cons token others => simp [Cursor.peek, shows'.rest, left]
  | nil =>
      have none : E.tail = [] := visible.resolve_right (by simp [left])
      have same : d.last = c.last := shows'.last.resolve_right (by simp [left])
      simp [Cursor.peek, shows'.rest, left, none, Cursor.lastLine, same]

theorem Before.peek (before : E.Before k c d) : d.peek = c.peek :=
  before.toShows.peek before.visible

theorem Before.atSymbol (before : E.Before k c d) (symbol : Symbol) :
    d.atSymbol symbol = c.atSymbol symbol := by
  rw [Cursor.atSymbol, Cursor.atSymbol, before.peek]

/-- Reading a token leaves one token less. -/
theorem Shows.read (shows' : E.Shows k c d) (more : c.peek.kind ≠ .endOfInput) :
    ∃ j, k = j + 1 ∧ E.Shows j c.advance d.advance := by
  have rest := Cursor.rest_eq_peek_cons more
  have visible : c.rest ≠ [] := rest ▸ List.cons_ne_nil _ _
  have same := shows'.peek (.inr visible)
  have short := shows'.short
  rw [rest, List.length_cons] at short
  refine ⟨k - 1, by omega, ?_⟩
  rw [Cursor.advance_eq more, Cursor.advance_eq (same ▸ more)]
  refine ⟨?_, .inl (by rw [same]), shows'.errors, shows'.blocks, ?_⟩
  · rw [shows'.rest, List.tail_append_of_ne_nil visible]
  · show c.rest.tail.length ≤ k - 1
    omega

/-- Reading one token on both sides keeps what is shown. -/
theorem Shows.advance (shows' : E.Shows k c d) (visible : E.tail = [] ∨ c.rest ≠ []) :
    E.Shows k c.advance d.advance := by
  by_cases atEnd : c.peek.kind = .endOfInput
  · have same := shows'.peek visible
    simp only [Cursor.advance, same, if_pos atEnd]
    exact { shows' with last := .inl rfl }
  · obtain ⟨j, rfl, read⟩ := shows'.read atEnd
    exact read.mono (Nat.le_succ j)

/-- A token that does not end a statement is read, and the end is still ahead. -/
theorem Before.read (before : E.Before k c d) (inner : c.peek.kind.Inner) :
    ∃ j, k = j + 1 ∧ E.Before j c.advance d.advance := by
  obtain ⟨j, more, read⟩ := before.toShows.read inner.1
  refine ⟨j, more, read, before.ahead.imp_right ?_⟩
  rintro ⟨token, mem, ends⟩
  refine ⟨token, ?_, ends⟩
  rw [Cursor.rest_eq_peek_cons inner.1] at mem
  rcases List.mem_cons.mp mem with rfl | later
  · -- the token that was read is not the one that ends the statement
    rw [inner.2] at ends
    cases ends
  · rwa [Cursor.advance_eq inner.1]

theorem Shows.report (shows' : E.Shows k c d) (error : SyntaxError) :
    E.Shows k (c.report error) (d.report error) :=
  { shows' with errors := by rw [Cursor.report, shows'.errors, ← Array.append_push]; rfl }

theorem Before.report (before : E.Before k c d) (error : SyntaxError) :
    E.Before k (c.report error) (d.report error) :=
  ⟨before.toShows.report error, before.ahead⟩

end Excerpt

/-! ## Results that agree -/

/-- Two results agree: both steps give the same value and leave cursors that `R`
relates, or both stop for the same reason at cursors that `S` relates. -/
inductive Agree {α : Type} (R S : Cursor → Cursor → Prop) :
    EStateM.Result ParseStop Cursor α → EStateM.Result ParseStop Cursor α → Prop
  | ok {c d : Cursor} (a : α) : R c d → Agree R S (.ok a c) (.ok a d)
  | error {c d : Cursor} (stop : ParseStop) : S c d → Agree R S (.error stop c) (.error stop d)

section Agree

variable {α β : Type} {R R' S S' : Cursor → Cursor → Prop} {c d : Cursor}

theorem Agree.mono {left right : EStateM.Result ParseStop Cursor α} (agree : Agree R S left right)
    (ok : ∀ c d, R c d → R' c d) (error : ∀ c d, S c d → S' c d) : Agree R' S' left right := by
  cases agree with
  | ok a related => exact .ok a (ok _ _ related)
  | error stop related => exact .error stop (error _ _ related)

theorem Agree.bind {p q : Parse α} {f g : α → Parse β} (first : Agree R S (p c) (q d))
    (second : ∀ a c' d', R c' d' → Agree R' S (f a c') (g a d')) :
    Agree R' S ((p >>= f) c) ((q >>= g) d) := by
  generalize left : p c = result at first
  generalize right : q d = result' at first
  cases first with
  | ok a related =>
      rw [bind_run_ok left, bind_run_ok right]
      exact second a _ _ related
  | error stop related =>
      rw [bind_run_error left, bind_run_error right]
      exact .error stop related

end Agree

/-! ## Steps inside a statement -/

/-- Two steps agree wherever a statement is still to end, and leave it so. -/
def Steady (E : Excerpt) (m : Nat) {α : Type} (p q : Parse α) : Prop :=
  ∀ k ≤ m, ∀ c d, E.Before k c d → Agree (E.Before k) (E.Before k) (p c) (q d)

section Rules

variable {E : Excerpt} {m k : Nat} {α β : Type} {c d : Cursor} {R S : Cursor → Cursor → Prop}

theorem Steady.mono {p q : Parse α} (steady : Steady E m p q) (less : k ≤ m) : Steady E k p q :=
  fun j bound => steady j (Nat.le_trans bound less)

theorem Steady.pure (a : α) : Steady E m (Pure.pure a) (Pure.pure a) :=
  fun _ _ _ _ before => .ok a before

theorem Steady.bind {p q : Parse α} {f g : α → Parse β} (first : Steady E m p q)
    (second : ∀ a, Steady E m (f a) (g a)) : Steady E m (p >>= f) (q >>= g) :=
  fun k bound c d before => (first k bound c d before).bind fun a c' d' before' =>
    second a k bound c' d' before'

theorem Steady.map {p q : Parse α} (steady : Steady E m p q) (f : α → β) :
    Steady E m (f <$> p) (f <$> q) := by
  rw [map_eq_pure_bind, map_eq_pure_bind]
  exact steady.bind fun a => .pure (f a)

theorem Steady.ite {p q p' q' : Parse α} {condition : Prop} [Decidable condition]
    (thenStep : Steady E m p q) (elseStep : Steady E m p' q') :
    Steady E m (if condition then p else p') (if condition then q else q') := by
  split
  · exact thenStep
  · exact elseStep

theorem tooDeep_steady : Steady E m (tooDeep : Parse α) tooDeep :=
  fun _ _ _ _ before => .error .tooDeep before

theorem fail_steady (expected : Expectation) :
    Steady E m (fail expected : Parse α) (fail expected) := by
  intro k _ c d before
  rw [fail, fail, before.peek]
  exact .error _ before

theorem note_steady (expected : Expectation) (token : Token) :
    Steady E m (note expected token) (note expected token) :=
  fun _ _ _ _ before => .ok () (before.report ⟨.missing expected, token⟩)

theorem at_steady (symbol : Symbol) : Steady E m (at? symbol) (at? symbol) := by
  intro k _ c d before
  rw [at?, at?, before.atSymbol]
  exact .ok _ before

/-- A step that looks at the next token first. -/
theorem steady_of_peek {f g : Token → Parse α}
    (rest : ∀ k ≤ m, ∀ c d, E.Before k c d →
      Agree (E.Before k) (E.Before k) (f c.peek c) (g c.peek d)) :
    Steady E m (peek >>= f) (peek >>= g) := by
  intro k bound c d before
  show Agree _ _ (f c.peek c) (g d.peek d)
  rw [before.peek]
  exact rest k bound c d before

theorem peek_steady : Steady E m peek peek := by
  intro k _ c d before
  rw [peek, peek, before.peek]
  exact .ok _ before

/-- Reading a token that was looked at. What follows has one token less. -/
theorem Excerpt.Before.next_bind {f g : Token → Parse α} (before : E.Before k c d)
    (inner : c.peek.kind.Inner)
    (rest : ∀ j, k = j + 1 → E.Before j c.advance d.advance →
      Agree (E.Before j) (E.Before j) (f c.peek c.advance) (g c.peek d.advance)) :
    Agree (E.Before k) (E.Before k) ((next >>= f) c) ((next >>= g) d) := by
  obtain ⟨j, rfl, read⟩ := before.read inner
  have later := rest j rfl read
  show Agree _ _ (f c.peek c.advance) (g d.peek d.advance)
  rw [before.peek]
  exact later.mono (fun _ _ less => less.mono (Nat.le_succ j))
    fun _ _ less => less.mono (Nat.le_succ j)

/-- Reading a symbol that may come next. If it does, what follows has one token less. -/
theorem Excerpt.Before.accept_bind {symbol : Symbol} {f g : Bool → Parse α}
    (before : E.Before k c d) (inner : (TokenKind.symbol symbol).Inner)
    (yes : ∀ j, k = j + 1 → E.Before j c.advance d.advance →
      Agree (E.Before j) (E.Before j) (f true c.advance) (g true d.advance))
    (no : Agree (E.Before k) (E.Before k) (f false c) (g false d)) :
    Agree (E.Before k) (E.Before k) ((accept symbol >>= f) c) ((accept symbol >>= g) d) := by
  cases found : c.atSymbol symbol with
  | true =>
      have here := Cursor.atSymbol_iff.mp found
      obtain ⟨j, rfl, read⟩ := before.read (here ▸ inner)
      rw [bind_run_ok (show accept symbol c = .ok true c.advance by simp [accept, found]),
        bind_run_ok (show accept symbol d = .ok true d.advance by
          simp [accept, before.atSymbol, found])]
      exact (yes j rfl read).mono (fun _ _ less => less.mono (Nat.le_succ j))
        fun _ _ less => less.mono (Nat.le_succ j)
  | false =>
      rw [bind_run_ok (show accept symbol c = .ok false c by simp [accept, found]),
        bind_run_ok (show accept symbol d = .ok false d by
          simp [accept, before.atSymbol, found])]
      exact no

/-- Accepting a symbol that can stand inside a statement is steady. -/
theorem accept_steady {symbol : Symbol} (inner : (TokenKind.symbol symbol).Inner) :
    Steady E m (accept symbol) (accept symbol) := by
  intro k _ c d before
  have done := before.accept_bind (f := Pure.pure) (g := Pure.pure) inner
    (fun j _ read => .ok true read) (.ok false before)
  simpa using done

theorem expect_steady {symbol : Symbol} (inner : (TokenKind.symbol symbol).Inner)
    (expected : Expectation) : Steady E m (expect symbol expected) (expect symbol expected) := by
  intro k bound c d before
  unfold expect
  rw [before.atSymbol]
  split
  · rename_i found
    have here := Cursor.atSymbol_iff.mp found
    obtain ⟨j, rfl, read⟩ := before.read (here ▸ inner)
    exact .ok () (read.mono (Nat.le_succ j))
  · exact fail_steady expected k bound c d before

/-- Reading an identifier, which must come next. What follows has one token less. -/
theorem Excerpt.Before.identifier_bind {f g : String × Nat → Parse α} (before : E.Before k c d)
    (expected : Expectation)
    (rest : ∀ j named, k = j + 1 → E.Before j c.advance d.advance →
      Agree (E.Before j) (E.Before j) (f named c.advance) (g named d.advance)) :
    Agree (E.Before k) (E.Before k) ((identifier expected >>= f) c)
      ((identifier expected >>= g) d) := by
  cases found : c.peek.kind with
  | identifier name =>
      obtain ⟨j, rfl, read⟩ := before.read (by rw [found]; exact ⟨nofun, rfl⟩)
      have first : identifier expected c = .ok (name, c.peek.line) c.advance := by
        rw [identifier, found]
      have second : identifier expected d = .ok (name, c.peek.line) d.advance := by
        rw [identifier, before.peek, found]
      rw [bind_run_ok first, bind_run_ok second]
      exact (rest j _ rfl read).mono (fun _ _ less => less.mono (Nat.le_succ j))
        fun _ _ less => less.mono (Nat.le_succ j)
  | _ =>
      have first : identifier expected c = .error (.mistake ⟨.missing expected, c.peek⟩) c := by
        rw [identifier, found]
        rfl
      have second : identifier expected d = .error (.mistake ⟨.missing expected, c.peek⟩) d := by
        rw [identifier, before.peek, found, ← before.peek]
        rfl
      rw [bind_run_error first, bind_run_error second]
      exact .error _ before

theorem identifier_steady (expected : Expectation) :
    Steady E m (identifier expected) (identifier expected) := by
  intro k _ c d before
  have done := before.identifier_bind (f := Pure.pure) (g := Pure.pure) expected
    fun j named _ read => .ok named read
  simpa using done

end Rules

end Parse

end TernLang
