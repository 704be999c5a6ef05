import TernLang.Proofs.Parser.Excerpt.Expression

/-! # Parsing the simple statements of a part of a text

A simple statement is an expression, a variable declaration, a `print` or a `return`.
It succeeds only by reading the semicolon that ends it, so **in front of a token that
ends a statement it is parsed alike in the part and in the text**, whether it succeeds
or not (`Finishes`). Where it stops, it has not read that token.
-/

namespace TernLang

namespace Cursor

/-- What is left to read only becomes less. -/
theorem Moves.suffix {c d : Cursor} (moves : c.Moves d) : ∃ tokens, c.rest = tokens ++ d.rest := by
  induction moves with
  | here => exact ⟨[], rfl⟩
  | note error _ ih => exact ih
  | inside _ _ ihInner ih =>
      obtain ⟨tokens, first⟩ := ihInner
      obtain ⟨others, second⟩ := ih
      exact ⟨tokens ++ others, by rw [List.append_assoc, ← second]; exact first⟩
  | @read c d _ ih =>
      obtain ⟨tokens, rest⟩ := ih
      by_cases atEnd : c.peek.kind = .endOfInput
      · exact ⟨tokens, by simpa [advance, atEnd] using rest⟩
      · refine ⟨c.peek :: tokens, ?_⟩
        rw [rest_eq_peek_cons atEnd, List.cons_append, ← rest, advance_eq atEnd]

/-- Every block that is entered is left. -/
theorem Moves.openBlocks {c d : Cursor} (moves : c.Moves d) : d.openBlocks = c.openBlocks := by
  induction moves with
  | here => rfl
  | note error _ ih => exact ih
  | inside _ _ ihInner ih =>
      rw [ih]
      show _ - 1 = _
      rw [ihInner]
      rfl
  | @read c d _ ih =>
      rw [ih, advance]
      split <;> rfl

theorem Moves.endsAhead {c d : Cursor} (moves : c.Moves d) (ahead : d.EndsAhead) :
    c.EndsAhead := by
  obtain ⟨tokens, rest⟩ := moves.suffix
  obtain ⟨token, mem, ends⟩ := ahead
  exact ⟨token, by simp [rest, mem], ends⟩

theorem Moves.length_le {c d : Cursor} (moves : c.Moves d) :
    d.rest.length ≤ c.rest.length := by
  obtain ⟨tokens, rest⟩ := moves.suffix
  rw [rest, List.length_append]
  omega

/-- Less is left to read, unless nothing was read. -/
theorem Moves.length_lt {c d : Cursor} (moves : c.Moves d) (other : d.rest ≠ c.rest) :
    d.rest.length < c.rest.length := by
  obtain ⟨tokens, rest⟩ := moves.suffix
  cases tokens with
  | nil => exact absurd rest.symm other
  | cons token tokens =>
      rw [rest, List.length_append, List.length_cons]
      omega

/-- A token of the kind `P` was read between the two cursors. -/
def Crosses (P : TokenKind → Prop) (c d : Cursor) : Prop :=
  ∃ tokens, c.rest = tokens ++ d.rest ∧ ∃ token ∈ tokens, P token.kind

theorem Crosses.length_lt {P : TokenKind → Prop} {c d : Cursor} (crosses : c.Crosses P d) :
    d.rest.length < c.rest.length := by
  obtain ⟨tokens, rest, token, mem, -⟩ := crosses
  have some := List.length_pos_of_mem mem
  rw [rest, List.length_append]
  omega

/-- A token crossed over was ahead. -/
theorem Crosses.mem {P : TokenKind → Prop} {c d : Cursor} (crosses : c.Crosses P d) :
    ∃ token ∈ c.rest, P token.kind := by
  obtain ⟨tokens, rest, token, mem, kind⟩ := crosses
  exact ⟨token, by simp [rest, mem], kind⟩

theorem Crosses.mono {P Q : TokenKind → Prop} {c d : Cursor} (crosses : c.Crosses P d)
    (weaker : ∀ kind, P kind → Q kind) : c.Crosses Q d := by
  obtain ⟨tokens, rest, token, mem, kind⟩ := crosses
  exact ⟨tokens, rest, token, mem, weaker _ kind⟩

theorem Moves.crosses {P : TokenKind → Prop} {c d e : Cursor} (moves : c.Moves d)
    (crosses : d.Crosses P e) : c.Crosses P e := by
  obtain ⟨before, rest⟩ := moves.suffix
  obtain ⟨tokens, rest', token, mem, kind⟩ := crosses
  exact ⟨before ++ tokens, by rw [rest, rest', List.append_assoc], token, by simp [mem], kind⟩

theorem Crosses.moves {P : TokenKind → Prop} {c d e : Cursor} (crosses : c.Crosses P d)
    (moves : d.Moves e) : c.Crosses P e := by
  obtain ⟨tokens, rest, token, mem, kind⟩ := crosses
  obtain ⟨others, rest'⟩ := moves.suffix
  exact ⟨tokens ++ others, by rw [rest, rest', List.append_assoc], token, by simp [mem], kind⟩

end Cursor

namespace Parse

/-! ## Steps that read a token of a kind -/

/-- Where the step succeeds, it has read a token of the kind `P`. -/
def EndsWith (P : TokenKind → Prop) {α : Type} (step : Parse α) : Prop :=
  ∀ c a d, step c = .ok a d → c.Crosses P d

section EndsWith

variable {α β : Type} {P : TokenKind → Prop} {p : Parse α} {f : α → Parse β}

theorem endsWith_expect {symbol : Symbol} (kind : P (.symbol symbol)) (expected : Expectation) :
    EndsWith P (expect symbol expected) := by
  intro c _ d run
  obtain ⟨line, reads⟩ := of_expect_ok run
  exact ⟨_, reads.rest, _, List.mem_singleton_self _, kind⟩

theorem EndsWith.bind (ends : EndsWith P p) (travels : ∀ a, (f a).Travels) :
    EndsWith P (p >>= f) := by
  intro c b d run
  obtain ⟨a, e, first, second⟩ := of_bind_ok run
  exact (ends c a e first).moves ((travels a).ok second)

theorem Travels.endsWith (travels : p.Travels) (ends : ∀ a, EndsWith P (f a)) :
    EndsWith P (p >>= f) := by
  intro c b d run
  obtain ⟨a, e, first, second⟩ := of_bind_ok run
  exact (travels.ok first).crosses (ends a e b d second)

end EndsWith

/-! ## Simple statements -/

variable {E : Excerpt} {m k : Nat}

/-- Two steps agree wherever a statement is still to end. They succeed only by reading
the semicolon that ends it. -/
structure Finishes (E : Excerpt) (m : Nat) {α : Type} (p q : Parse α) : Prop where
  travels : p.Travels
  ends : EndsWith (· = .symbol .semicolon) p
  run : ∀ k ≤ m, ∀ c d, E.Before k c d → Agree (E.Shows k) (E.Before k) (p c) (q d)

section Finishes

variable {α β : Type} {p q : Parse α} {f g : α → Parse β}

theorem Steady.finishes (first : Steady E m p q) (travels : p.Travels)
    (second : ∀ a, Finishes E m (f a) (g a)) : Finishes E m (p >>= f) (q >>= g) where
  travels := travels.bind fun a => (second a).travels
  ends := travels.endsWith fun a => (second a).ends
  run k bound c d before := (first k bound c d before).bind fun a c' d' before' =>
    (second a).run k bound c' d' before'

theorem finishes_tooDeep : Finishes E m (tooDeep : Parse α) tooDeep where
  travels := travels_of_stay fun _ => rfl
  ends := by
    intro c a d run
    cases run
  run _ _ _ _ before := .error .tooDeep before

/-- A statement that has read its semicolon is finished. -/
theorem finishes_semicolon (expected : Expectation) (a : α) :
    Finishes E m (do expect .semicolon expected; pure a)
      (do expect .semicolon expected; pure a) where
  travels := (expect_travels _ _).bind fun _ => pure_travels a
  ends := (endsWith_expect (P := (· = .symbol .semicolon)) rfl _).bind fun _ => pure_travels a
  run k bound c d before := by
    have read : Agree (E.Shows k) (E.Before k) (expect .semicolon expected c)
        (expect .semicolon expected d) := by
      unfold expect
      rw [before.atSymbol]
      split
      · exact .ok () (before.toShows.advance before.visible)
      · rw [fail, fail, before.peek]
        exact .error _ before
    exact read.bind fun _ c' d' shows' => .ok a shows'

end Finishes

section Simple

variable {size size' : Nat} (fits : E.Fits m size size')
include fits

theorem varDecl_finishes (line room : Nat) :
    Finishes E m (varDecl size line room) (varDecl size' line room) := by
  cases room with
  | zero => exact finishes_tooDeep
  | succ room =>
      refine (identifier_steady _).finishes (identifier_travels _) fun (name, _) => ?_
      refine (accept_steady (by decide)).finishes (accept_travels _) fun given => ?_
      have later : ∀ initial, Finishes E m
          (do
            expect .semicolon .semicolonAfterDeclaration
            pure (Stmt.varDecl name initial line))
          (do
            expect .semicolon .semicolonAfterDeclaration
            pure (Stmt.varDecl name initial line)) := fun initial => finishes_semicolon _ _
      have value := expression_travels size room
      cases given with
      | true =>
          exact ((expression_steady fits room).map some).finishes (value.map some) later
      | false => exact (Steady.pure none).finishes (pure_travels none) later

theorem expressionStmt_finishes (room : Nat) :
    Finishes E m (expressionStmt size room) (expressionStmt size' room) := by
  cases room with
  | zero => exact finishes_tooDeep
  | succ room =>
      exact (expression_steady fits room).finishes (expression_travels size room)
        fun expr => finishes_semicolon _ _

theorem printStmt_finishes (room line : Nat) :
    Finishes E m (printStmt (expression size room) line) (printStmt (expression size' room) line) :=
  (expression_steady fits room).finishes (expression_travels size room)
    fun _ => finishes_semicolon _ _

theorem returnStmt_finishes (room line : Nat) :
    Finishes E m (returnStmt (expression size room) line)
      (returnStmt (expression size' room) line) := by
  refine (at_steady _).finishes (at_travels _) fun closed => ?_
  have later : ∀ value, Finishes E m
      (do
        expect .semicolon .semicolonAfterReturn
        pure (Stmt.returnValue value line))
      (do
        expect .semicolon .semicolonAfterReturn
        pure (Stmt.returnValue value line)) := fun value => finishes_semicolon _ _
  cases closed with
  | true => exact (Steady.pure none).finishes (pure_travels none) later
  | false =>
      exact ((expression_steady fits room).map some).finishes
        ((expression_travels size room).map some) later

end Simple

end Parse

end TernLang
