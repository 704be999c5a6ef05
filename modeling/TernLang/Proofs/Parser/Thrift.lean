import Mathlib.Algebra.Order.Ring.Int
import TernLang.Proofs.Parser.Braces

/-! # Tokens pay for mistakes

Every token that is read earns one unit, and every mistake that is noted costs one.
`c.Owes n d` says that the way between the two cursors costs at most `n` units more than
it earns; a negative `n` is what is left over. `Thrifty L n` says this of a step that
starts with at most `L` tokens ahead, and also that it has the room to come to its end.
A step that stops before it has read anything costs nothing: its mistake is not noted yet,
and **an expression that is read leaves one unit for it** (`expression_thrifty`).

The mistakes that are noted on the way are paid for in advance: one for an argument too
many by the comma in front of it, one for what is assigned to or stepped by the operator.
A level of the grammar that is nested in itself reads a token each time, so room that is
proportional to the number of tokens is enough.
-/

namespace TernLang

/-- The number of tokens in front of the cursor that can be read. -/
def Cursor.ahead (c : Cursor) : Nat :=
  c.rest.countP (·.kind ≠ .endOfInput)

/-- From the first cursor to the second at most `n` more mistakes are noted than tokens are
read, and none of them is for lack of room. -/
structure Cursor.Owes (c : Cursor) (n : ℤ) (d : Cursor) : Prop where
  rest : d.rest <:+ c.rest
  errors : c.errors.size ≤ d.errors.size
  shallow : d.Overflowed → c.Overflowed
  balance : (d.errors.size : ℤ) + d.ahead ≤ c.errors.size + c.ahead + n

namespace Cursor

variable {c d e : Cursor} {n m : ℤ}

theorem owes_refl (c : Cursor) : c.Owes 0 c :=
  ⟨List.suffix_rfl, Nat.le_refl _, id, by omega⟩

/-- Tokens read and errors noted along the way add up. -/
theorem Owes.trans (first : c.Owes n d) (second : d.Owes m e) : c.Owes (n + m) e where
  rest := second.rest.trans first.rest
  errors := first.errors.trans second.errors
  shallow overflowed := first.shallow (second.shallow overflowed)
  balance := by
    have := first.balance
    have := second.balance
    omega

theorem Owes.mono (owes : c.Owes n d) (le : n ≤ m) : c.Owes m d :=
  ⟨owes.rest, owes.errors, owes.shallow, by have := owes.balance; omega⟩

theorem Owes.length_le (owes : c.Owes n d) : d.rest.length ≤ c.rest.length :=
  owes.rest.length_le

/-- What leaves a unit over has read a token. -/
theorem Owes.length_lt (owes : c.Owes (-1) d) : d.rest.length < c.rest.length := by
  refine lt_of_le_of_ne owes.length_le fun same => ?_
  have balance := owes.balance
  have grown := owes.errors
  rw [ahead, ahead, owes.rest.eq_of_length same] at balance
  omega

/-- The number of open blocks does not count. -/
theorem Owes.inside (owes : Owes { c with openBlocks := c.openBlocks + 1 } n d) :
    c.Owes n { d with openBlocks := d.openBlocks - 1 } :=
  ⟨owes.rest, owes.errors, owes.shallow, owes.balance⟩

/-- Reading a token earns a unit. -/
theorem owes_advance (more : c.peek.kind ≠ .endOfInput) : c.Owes (-1) c.advance where
  rest := by
    rw [(reads_advance more).rest]
    exact List.suffix_append _ _
  errors := (congrArg Array.size c.advance_errors).ge
  shallow overflowed := by rwa [Overflowed, advance_errors] at overflowed
  balance := by
    have first : c.ahead = c.advance.ahead + 1 := by
      rw [ahead, (reads_advance more).rest, List.singleton_append,
        List.countP_cons_of_pos (by simpa using more)]
      rfl
    rw [advance_errors]
    omega

/-- At the end nothing is read, and nothing is owed. -/
theorem owes_advance_any (c : Cursor) : c.Owes 0 c.advance := by
  by_cases atEnd : c.peek.kind = .endOfInput
  · have stays : c.advance = { c with last := some c.peek } := by
      rw [advance]
      exact if_pos atEnd
    rw [stays]
    exact ⟨List.suffix_rfl, Nat.le_refl _, id, by show (_ : ℤ) ≤ _; simp [ahead]⟩
  · exact (owes_advance atEnd).mono (by omega)

/-- Noting a mistake costs a unit. -/
theorem owes_report {error : SyntaxError} (plain : error.cause ≠ .nestedTooDeeply) :
    c.Owes 1 (c.report error) where
  rest := List.suffix_rfl
  errors := by simp [report]
  shallow := by
    rintro ⟨noted, mem, cause⟩
    rcases Array.mem_push.mp mem with before | rfl
    · exact ⟨noted, before, cause⟩
    · exact absurd cause plain
  balance := by
    show ((c.errors.push error).size : ℤ) + c.ahead ≤ _
    rw [Array.size_push]
    omega

theorem owes_skipStatement (fuel : Nat) (c : Cursor) : c.Owes 0 (c.skipStatement fuel) := by
  induction fuel generalizing c with
  | zero => exact owes_refl c
  | succ fuel ih =>
      unfold skipStatement
      split
      · exact owes_refl c
      · exact (owes_advance_any c).trans (ih c.advance)

theorem owes_synchronize (c : Cursor) : c.Owes 0 c.synchronize := by
  unfold synchronize
  split
  · exact owes_refl c
  · exact (owes_advance_any c).trans (owes_skipStatement _ _)

/-- Leaving a statement earns a unit if it starts in front of a token that may be skipped. -/
theorem owes_synchronize_read (more : c.peek.kind ≠ .endOfInput)
    (inside : c.atClosingBrace = false) : c.Owes (-1) c.synchronize := by
  rw [synchronize, inside]
  exact (owes_advance more).trans (owes_skipStatement _ _)

end Cursor

/-- A step has stopped for a mistake, not for lack of room. -/
def ParseStop.IsMistake : ParseStop → Prop
  | .mistake error => error.cause ≠ .nestedTooDeeply
  | .tooDeep => False

namespace Parse

/-- What a step that starts at the cursor may give: it owes at most `n`, or it has stopped
where it started. -/
def Allows {α : Type} (c : Cursor) (n : ℤ) : EStateM.Result ParseStop Cursor α → Prop
  | .ok _ d => c.Owes n d
  | .error stop d => stop.IsMistake ∧ (d = c ∨ c.Owes n d)

/-- With at most `L` tokens ahead the step owes at most `n`, or stops where it starts. -/
def Thrifty {α : Type} (L : Nat) (n : ℤ) (step : Parse α) : Prop :=
  ∀ c : Cursor, c.rest.length ≤ L → Allows c n (step c)

/-! ## Rules -/

section Rules

variable {α β : Type} {p q : Parse α} {f : α → Parse β} {g : Token → Parse β} {c d : Cursor}
  {L : Nat} {n m : ℤ}

theorem Allows.mono {result : EStateM.Result ParseStop Cursor α} (allows : Allows c n result)
    (le : n ≤ m) : Allows c m result := by
  cases result with
  | ok a d => exact Cursor.Owes.mono allows le
  | error stop d => exact ⟨allows.1, allows.2.imp_right (·.mono le)⟩

/-- One step after the other, where the second one may cost something. -/
theorem allows_bind (first : Allows c n (p c)) (nonneg : 0 ≤ m)
    (second : ∀ a d, p c = .ok a d → c.Owes n d → Allows d m (f a d)) :
    Allows c (n + m) ((p >>= f) c) := by
  cases run : p c with
  | error stop d =>
      rw [bind_run_error run]
      rw [run] at first
      exact ⟨first.1, first.2.imp_right (·.mono (by omega))⟩
  | ok a d =>
      rw [bind_run_ok run]
      rw [run] at first
      have owes : c.Owes n d := first
      have rest := second a d run owes
      cases result : f a d with
      | ok b e =>
          rw [result] at rest
          exact owes.trans rest
      | error stop e =>
          rw [result] at rest
          refine ⟨rest.1, .inr ?_⟩
          rcases rest.2 with rfl | owes'
          · exact owes.mono (by omega)
          · exact owes.trans owes'

theorem Thrifty.weaken (thrifty : Thrifty L n p) {L' : Nat} (fewer : L' ≤ L) (le : n ≤ m) :
    Thrifty L' m p :=
  fun c short => (thrifty c (short.trans fewer)).mono le

/-- A step that is followed by one that owes nothing owes no more than by itself. -/
theorem Thrifty.bind (first : Thrifty L n p) (second : ∀ a, Thrifty L 0 (f a)) :
    Thrifty L n (p >>= f) := by
  intro c short
  refine (allows_bind (first c short) le_rfl fun a d _ owes => ?_).mono (by omega)
  exact second a d (owes.length_le.trans short)

/-- A step that has read a token leaves fewer of them ahead, and a unit for what follows. -/
theorem Thrifty.earn_bind (first : Thrifty L (-1) p) (nonneg : 0 ≤ m)
    (second : ∀ a, 0 < L → Thrifty (L - 1) m (f a)) : Thrifty L (m - 1) (p >>= f) := by
  intro c short
  refine (allows_bind (first c short) nonneg fun a d _ owes => ?_).mono (by omega)
  have less := owes.length_lt
  exact second a (by omega) d (by omega)

/-- The unit is kept. -/
theorem Thrifty.keep (first : Thrifty L (-1) p)
    (second : ∀ a, 0 < L → Thrifty (L - 1) 0 (f a)) : Thrifty L (-1) (p >>= f) :=
  first.earn_bind le_rfl second

/-- The unit is spent. -/
theorem Thrifty.spend (first : Thrifty L (-1) p)
    (second : ∀ a, 0 < L → Thrifty (L - 1) 1 (f a)) : Thrifty L 0 (p >>= f) :=
  first.earn_bind zero_le_one second

/-- Reading a token that was looked at. -/
theorem allows_next (more : c.peek.kind ≠ .endOfInput) (short : c.rest.length ≤ L) (nonneg : 0 ≤ m)
    (rest : ∀ token, 0 < L → Thrifty (L - 1) m (g token)) :
    Allows c (m - 1) ((next >>= g) c) := by
  have first : Allows c (-1) (next c) := Cursor.owes_advance more
  refine (allows_bind first nonneg fun token d _ owes => ?_).mono (by omega)
  have less := owes.length_lt
  exact rest token (by omega) d (by omega)

theorem keeps_next (more : c.peek.kind ≠ .endOfInput) (short : c.rest.length ≤ L)
    (rest : ∀ token, 0 < L → Thrifty (L - 1) 0 (g token)) : Allows c (-1) ((next >>= g) c) :=
  allows_next more short le_rfl rest

theorem spends_next (more : c.peek.kind ≠ .endOfInput) (short : c.rest.length ≤ L)
    (rest : ∀ token, 0 < L → Thrifty (L - 1) 1 (g token)) : Allows c 0 ((next >>= g) c) :=
  allows_next more short zero_le_one rest

theorem thrifty_pure (a : α) : Thrifty L 0 (pure a : Parse α) :=
  fun c _ => c.owes_refl

theorem thrifty_fail (expected : Expectation) : Thrifty L n (fail expected : Parse α) :=
  fun _ _ => ⟨nofun, .inl rfl⟩

theorem thrifty_note (expected : Expectation) (token : Token) : Thrifty L 1 (note expected token) :=
  fun _ _ => Cursor.owes_report nofun

/-- A step that looks at the next token first. -/
theorem thrifty_of_peek (rest : ∀ c : Cursor, c.rest.length ≤ L → Allows c n (g c.peek c)) :
    Thrifty L n (peek >>= g) :=
  rest

theorem thrifty_at_bind {symbol : Symbol} {f : Bool → Parse β}
    (rest : ∀ found, Thrifty L n (f found)) : Thrifty L n (at? symbol >>= f) :=
  fun c => rest (c.atSymbol symbol) c

theorem more_of_kind {kind : TokenKind} (found : c.peek.kind = kind) (more : kind ≠ .endOfInput) :
    c.peek.kind ≠ .endOfInput :=
  found ▸ more

/-- A symbol read pays for an error to come; one missed stops the statement. -/
theorem thrifty_expect (symbol : Symbol) (expected : Expectation) :
    Thrifty L (-1) (expect symbol expected) := by
  intro c short
  unfold expect
  split
  · rename_i found
    exact Cursor.owes_advance (more_of_kind (Cursor.atSymbol_iff.mp found) nofun)
  · exact thrifty_fail expected c short

theorem thrifty_identifier (expected : Expectation) : Thrifty L (-1) (identifier expected) := by
  intro c short
  unfold identifier
  split
  · rename_i found
    exact Cursor.owes_advance (more_of_kind found (by simp))
  · exact thrifty_fail expected c short

/-- A symbol that may come next pays for what follows it. -/
theorem thrifty_accept_bind {symbol : Symbol} {f : Bool → Parse β}
    (found : 0 < L → Thrifty (L - 1) 1 (f true)) (other : Thrifty L 0 (f false)) :
    Thrifty L 0 (accept symbol >>= f) := by
  intro c short
  cases here : c.atSymbol symbol with
  | true =>
      have more := more_of_kind (Cursor.atSymbol_iff.mp here) nofun
      have reads : accept symbol c = .ok true c.advance := if_pos here
      have same : (accept symbol >>= f) c = (next >>= fun _ => f true) c := by
        rw [bind_run_ok reads, bind_run_ok (show next c = .ok c.peek c.advance from rfl)]
      rw [same]
      exact spends_next more short fun _ => found
  | false =>
      have stays : accept symbol c = .ok false c := if_neg (by simp [here])
      rw [bind_run_ok stays]
      exact other c short

theorem Thrifty.map (thrifty : Thrifty L n p) (h : α → β) : Thrifty L n (h <$> p) := by
  rw [map_eq_pure_bind]
  exact thrifty.bind fun a => thrifty_pure (h a)

theorem Thrifty.ite {condition : Prop} [Decidable condition] (thenStep : Thrifty L n p)
    (elseStep : Thrifty L n q) : Thrifty L n (if condition then p else q) := by
  split
  · exact thenStep
  · exact elseStep

/-- What leaves a unit over costs nothing. -/
theorem Thrifty.free (thrifty : Thrifty L (-1) p) : Thrifty L 0 p :=
  thrifty.weaken le_rfl (by decide)

/-- What costs nothing with more tokens ahead also does so with fewer. -/
theorem Thrifty.fewer (thrifty : Thrifty L n p) : Thrifty (L - 1) n p :=
  thrifty.weaken (Nat.sub_le L 1) le_rfl

end Rules

/-! ## Expressions -/

section Loops

variable {p : Parse Expr} {L : Nat} (operand : Thrifty L (-1) p)
include operand

theorem chain_thrifty {γ : Type} {pick : TokenKind → Option γ}
    {join : Expr → Token → γ → Expr → Expr} (inner : pick .endOfInput = none) (size : Nat)
    (left : Expr) : Thrifty L 0 (chain pick join p size left) := by
  induction size generalizing left with
  | zero => exact thrifty_pure left
  | succ size ih =>
      refine thrifty_of_peek fun c short => ?_
      cases picked : pick c.peek.kind with
      | none => exact thrifty_pure left c short
      | some op =>
          have more : c.peek.kind ≠ .endOfInput := by
            intro atEnd
            rw [atEnd, inner] at picked
            cases picked
          refine (keeps_next more short fun _ _ => ?_).mono (by decide)
          exact (operand.free.bind fun right => ih _).fewer

/-- A level that reads operands of the next one and its operators between them. -/
theorem level_thrifty {γ : Type} {pick : TokenKind → Option γ}
    {join : Expr → Token → γ → Expr → Expr} (inner : pick .endOfInput = none) (size : Nat) :
    Thrifty L (-1) (p >>= chain pick join p size) :=
  operand.keep fun left _ => (chain_thrifty operand inner size left).fewer

theorem arguments_thrifty (size : Nat) (before : List Expr) :
    Thrifty L 1 (arguments p size before) := by
  induction size generalizing before with
  | zero => exact (thrifty_pure before).weaken le_rfl (by decide)
  | succ size ih =>
      have later : Thrifty L 0 (do
          let value ← p
          if ← accept .comma then arguments p size (before ++ [value])
          else pure (before ++ [value])) :=
        operand.free.bind fun value => thrifty_accept_bind (fun _ => (ih _).fewer) (thrifty_pure _)
      refine .ite (thrifty_of_peek fun c => ?_) (later.weaken le_rfl (by decide))
      exact ((thrifty_note _ _).bind fun _ => later) c

theorem finishCall_thrifty (size : Nat) (callee : Expr) (line : Nat) :
    Thrifty L 1 (finishCall p size callee line) := by
  refine thrifty_at_bind fun closed => ?_
  have later : ∀ values, Thrifty L 0 (do
      expect .rightParen .parenAfterArguments
      pure (Expr.call callee values line)) :=
    fun values => (thrifty_expect _ _).free.bind fun _ => thrifty_pure _
  refine .ite ?_ ((arguments_thrifty operand size []).bind later)
  exact ((thrifty_pure []).bind later).weaken le_rfl (by decide)

theorem finishSlice_thrifty (target : Expr) (first : Option Expr) (line : Nat) :
    Thrifty L 0 (finishSlice p target first line) := by
  refine thrifty_at_bind fun closed => ?_
  have later : ∀ last : Option Expr, Thrifty L 0 (do
      expect .rightBracket .bracketAfterSlice
      pure (Expr.slice target first last line)) :=
    fun last => (thrifty_expect _ _).free.bind fun _ => thrifty_pure _
  exact .ite ((thrifty_pure none).bind later) ((operand.free.map some).bind later)

theorem finishAccess_thrifty (target : Expr) (line : Nat) :
    Thrifty L 0 (finishAccess p target line) := by
  have slice (first : Option Expr) : Thrifty (L - 1) 1 (finishSlice p target first line) :=
    (finishSlice_thrifty operand target first line).weaken (Nat.sub_le L 1) (by decide)
  refine thrifty_accept_bind (fun _ => slice none) (operand.free.bind fun first => ?_)
  refine thrifty_accept_bind (fun _ => slice (some first)) ?_
  exact (thrifty_expect _ _).free.bind fun _ => thrifty_pure _

theorem elements_thrifty (size : Nat) (before : List Expr) :
    Thrifty L 0 (elements p size before) := by
  induction size generalizing before with
  | zero => exact thrifty_pure before
  | succ size ih =>
      refine thrifty_at_bind fun closed => .ite (thrifty_pure before) ?_
      refine operand.free.bind fun value => thrifty_accept_bind (fun _ => ?_) (thrifty_pure _)
      exact (ih _).weaken (Nat.sub_le L 1) (by decide)

end Loops

/-- What stands in brackets has fewer tokens ahead than what the brackets stand behind. -/
theorem accesses_thrifty {p : Parse Expr} {L : Nat} (inner : 0 < L → Thrifty (L - 1) (-1) p)
    (size passes : Nat) (target : Expr) : Thrifty L 0 (accesses p size passes target) := by
  induction passes generalizing target with
  | zero => exact thrifty_pure target
  | succ passes ih =>
      refine thrifty_of_peek fun c short => ?_
      generalize found : c.peek.kind = kind
      split
      · -- the parenthesis pays for a first argument that is too many
        refine spends_next (more_of_kind found nofun) short fun _ some => ?_
        exact (finishCall_thrifty (inner some) size target _).bind fun _ => (ih _).fewer
      · refine (keeps_next (more_of_kind found nofun) short fun _ _ => ?_).mono (by decide)
        exact ((thrifty_identifier _).free.bind fun (name, line) => ih _).fewer
      · refine (keeps_next (more_of_kind found nofun) short fun _ some => ?_).mono (by decide)
        exact (finishAccess_thrifty (inner some) target _).bind fun _ => (ih _).fewer
      · exact thrifty_pure target c short

section Finish

variable {L : Nat} (target : Expr) (token : Token)

theorem finishAssign_thrifty (value : Expr) : Thrifty L 1 (finishAssign target token value) := by
  cases target with
  | var name line => exact (thrifty_pure _).weaken le_rfl (by decide)
  | _ => exact (thrifty_note _ token).bind fun _ => thrifty_pure _

theorem finishStep_thrifty (step : Step) : Thrifty L 1 (finishStep target token step) := by
  cases target with
  | var name line => exact (thrifty_pure _).weaken le_rfl (by decide)
  | _ => exact (thrifty_note _ token).bind fun _ => thrifty_pure _

end Finish

mutual

/-- **An expression that is read leaves a unit over**, if there are fifteen units of room for
each token ahead and for the levels of the grammar. -/
theorem expression_thrifty (size : Nat) :
    ∀ room L, 15 * L + 15 ≤ room → Thrifty L (-1) (expression size room)
  | 0, L, enough => absurd enough (by omega)
  | room + 1, L, enough => assignment_thrifty size room L (by omega)

theorem assignment_thrifty (size : Nat) :
    ∀ room L, 15 * L + 14 ≤ room → Thrifty L (-1) (assignment size room)
  | 0, L, enough => absurd enough (by omega)
  | room + 1, L, enough => by
      refine (disjunction_thrifty size room L (by omega)).keep fun target some =>
        thrifty_of_peek fun c short => ?_
      generalize found : c.peek.kind = kind
      split
      · -- the value pays for a target that cannot be assigned to
        refine (keeps_next (more_of_kind found nofun) short fun _ some' => ?_).mono (by decide)
        exact (assignment_thrifty size room _ (by omega)).spend fun value _ =>
          finishAssign_thrifty target _ value
      · cases picked : pickStep kind with
        | none => exact thrifty_pure target c short
        | some step =>
            have more : kind ≠ .endOfInput := by
              rw [pickStep_iff.mp picked]
              nofun
            -- and the operator for one that cannot be stepped
            exact spends_next (more_of_kind found more) short fun _ _ =>
              finishStep_thrifty target _ step

theorem disjunction_thrifty (size : Nat) :
    ∀ room L, 15 * L + 13 ≤ room → Thrifty L (-1) (disjunction size room)
  | 0, L, enough => absurd enough (by omega)
  | room + 1, L, enough => level_thrifty (conjunction_thrifty size room L (by omega)) rfl size

theorem conjunction_thrifty (size : Nat) :
    ∀ room L, 15 * L + 12 ≤ room → Thrifty L (-1) (conjunction size room)
  | 0, L, enough => absurd enough (by omega)
  | room + 1, L, enough => level_thrifty (equality_thrifty size room L (by omega)) rfl size

theorem equality_thrifty (size : Nat) :
    ∀ room L, 15 * L + 11 ≤ room → Thrifty L (-1) (equality size room)
  | 0, L, enough | 1, L, enough => absurd enough (by omega)
  | room + 2, L, enough => level_thrifty (comparison_thrifty size room L (by omega)) rfl size

theorem comparison_thrifty (size : Nat) :
    ∀ room L, 15 * L + 9 ≤ room → Thrifty L (-1) (comparison size room)
  | 0, L, enough | 1, L, enough => absurd enough (by omega)
  | room + 2, L, enough => level_thrifty (term_thrifty size room L (by omega)) rfl size

theorem term_thrifty (size : Nat) :
    ∀ room L, 15 * L + 7 ≤ room → Thrifty L (-1) (term size room)
  | 0, L, enough | 1, L, enough => absurd enough (by omega)
  | room + 2, L, enough => level_thrifty (factor_thrifty size room L (by omega)) rfl size

theorem factor_thrifty (size : Nat) :
    ∀ room L, 15 * L + 5 ≤ room → Thrifty L (-1) (factor size room)
  | 0, L, enough | 1, L, enough => absurd enough (by omega)
  | room + 2, L, enough => level_thrifty (unary_thrifty size room L (by omega)) rfl size

theorem unary_thrifty (size : Nat) :
    ∀ room L, 15 * L + 3 ≤ room → Thrifty L (-1) (unary size room)
  | 0, L, enough => absurd enough (by omega)
  | room + 1, L, enough => by
      refine thrifty_of_peek fun c short => ?_
      cases picked : pickUnary c.peek.kind with
      | none => exact call_thrifty size room L (by omega) c short
      | some op =>
          have more : c.peek.kind ≠ .endOfInput := by
            rw [pickUnary_iff.mp picked]
            nofun
          exact keeps_next more short fun _ some =>
            (unary_thrifty size room _ (by omega)).free.bind fun right => thrifty_pure _

theorem call_thrifty (size : Nat) :
    ∀ room L, 15 * L + 2 ≤ room → Thrifty L (-1) (call size room)
  | 0, L, enough => absurd enough (by omega)
  | room + 1, L, enough =>
      (primary_thrifty size room L (by omega)).keep fun target _ =>
        (accesses_thrifty (fun some => bracketed_thrifty size room _ (by omega))
          size size target).fewer

theorem bracketed_thrifty (size : Nat) :
    ∀ room L, 15 * L + 16 ≤ room → Thrifty L (-1) (bracketed size room)
  | 0, L, enough => absurd enough (by omega)
  | room + 1, L, enough => expression_thrifty size room L (by omega)

theorem primary_thrifty (size : Nat) :
    ∀ room L, 15 * L + 1 ≤ room → Thrifty L (-1) (primary size room)
  | 0, L, enough => absurd enough (by omega)
  | room + 1, L, enough => by
      refine thrifty_of_peek fun c short => ?_
      generalize found : c.peek.kind = kind
      have inner (some : 0 < L) := expression_thrifty size room (L - 1) (by omega)
      have constant {tree : Expr} (more : kind ≠ .endOfInput) :
          Allows c (-1) ((next >>= fun _ => pure tree : Parse Expr) c) :=
        keeps_next (more_of_kind found more) short fun _ _ => thrifty_pure _
      split
      · exact constant nofun
      · exact constant nofun
      · exact constant nofun
      · exact constant nofun
      · exact constant nofun
      · exact constant nofun
      · exact keeps_next (more_of_kind found nofun) short fun _ some =>
          (inner some).free.bind fun value =>
            (thrifty_expect _ _).free.bind fun _ => thrifty_pure _
      · exact keeps_next (more_of_kind found nofun) short fun _ some =>
          (elements_thrifty (inner some) size []).bind fun values =>
            (thrifty_expect _ _).free.bind fun _ => thrifty_pure _
      · exact thrifty_fail _ c short

end

end Parse

end TernLang
