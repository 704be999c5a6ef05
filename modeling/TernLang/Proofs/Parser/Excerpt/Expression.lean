import TernLang.Proofs.Parser.Excerpt

/-! # Parsing the expressions of a part of a text

**Every level of expressions is steady**: in front of a token that ends a statement it
gives the same result on a part of a text and in the text, and never reads that token
(`expression_steady`). A loop reads a token in each pass, so both bounds on the number
of passes are large enough.
-/

namespace TernLang.Parse

variable {E : Excerpt} {m size size' n n' : Nat} {p q : Parse Expr}

/-! ## Loops and clauses -/

theorem chain_of_none {γ : Type} {pick : TokenKind → Option γ}
    {join : Expr → Token → γ → Expr → Expr} {left : Expr} {c : Cursor}
    (other : pick c.peek.kind = none) : chain pick join p n left c = .ok left c := by
  cases n with
  | zero => rfl
  | succ n =>
      refine peek_bind ?_
      rw [other]
      rfl

theorem chain_steady {γ : Type} {pick : TokenKind → Option γ}
    {join : Expr → Token → γ → Expr → Expr}
    (inner : ∀ {kind op}, pick kind = some op → kind.Inner) (operand : Steady E m p q)
    (fits : m ≤ n) (fits' : m + E.tail.length ≤ n') (left : Expr) :
    Steady E m (chain pick join p n left) (chain pick join q n' left) := by
  induction n generalizing m n' left with
  | zero =>
      intro k bound c d before
      cases picked : pick c.peek.kind with
      | none =>
          rw [chain_of_none picked, chain_of_none (before.peek ▸ picked)]
          exact .ok left before
      | some op =>
          obtain ⟨j, rfl, -⟩ := before.read (inner picked)
          omega
  | succ n ih =>
      intro k bound c d before
      cases picked : pick c.peek.kind with
      | none =>
          rw [chain_of_none picked, chain_of_none (before.peek ▸ picked)]
          exact .ok left before
      | some op =>
          obtain ⟨i, rfl, -⟩ := before.read (inner picked)
          obtain ⟨n', rfl⟩ := Nat.exists_eq_add_of_le' (show 1 ≤ n' by omega)
          have looked : Steady E (i + 1) (chain pick join p (n + 1) left)
              (chain pick join q (n' + 1) left) := by
            refine steady_of_peek fun k bound' c d before => ?_
            cases picked : pick c.peek.kind with
            | none => exact .ok left before
            | some op =>
                refine before.next_bind (inner picked) fun j more read => ?_
                refine (operand j (by omega) _ _ read).bind fun right c' d' read' => ?_
                exact ih (operand.mono (by omega)) (by omega) (by omega) _ j (Nat.le_refl j) _ _
                  read'
          exact looked (i + 1) (Nat.le_refl _) c d before

/-- The loop over arguments ends in front of a token, so a bound that is larger than
the number of tokens is never used up. -/
theorem arguments_steady (argument : Steady E m p q) (fits : m < n)
    (fits' : m + E.tail.length < n') (values : List Expr) :
    Steady E m (arguments p n values) (arguments q n' values) := by
  induction n generalizing m n' values with
  | zero => omega
  | succ n ih =>
      obtain ⟨n', rfl⟩ := Nat.exists_eq_add_of_le' (show 1 ≤ n' by omega)
      have later : Steady E m
          (do
            let value ← p
            if ← accept .comma then arguments p n (values ++ [value])
            else pure (values ++ [value]))
          (do
            let value ← q
            if ← accept .comma then arguments q n' (values ++ [value])
            else pure (values ++ [value])) := by
        refine argument.bind fun value k bound c d before => ?_
        refine before.accept_bind (by decide) (fun j more read => ?_) (.ok _ before)
        exact ih (argument.mono (by omega)) (by omega) (by omega) _ j (Nat.le_refl j) _ _ read
      rw [arguments, arguments]
      exact .ite (peek_steady.bind fun token => (note_steady _ token).bind fun _ => later) later

theorem finishCall_steady (argument : Steady E m p q) (fits : m < size)
    (fits' : m + E.tail.length < size') (callee : Expr) (line : Nat) :
    Steady E m (finishCall p size callee line) (finishCall q size' callee line) := by
  refine (at_steady _).bind fun closed => ?_
  have later : ∀ values, Steady E m
      (do
        expect .rightParen .parenAfterArguments
        pure (Expr.call callee values line))
      (do
        expect .rightParen .parenAfterArguments
        pure (Expr.call callee values line)) :=
    fun values => (expect_steady (by decide) _).bind fun _ => .pure _
  exact .ite (.bind (.pure []) later) (.bind (arguments_steady argument fits fits' []) later)

theorem finishSlice_steady (bound : Steady E m p q) (target : Expr) (first : Option Expr)
    (line : Nat) :
    Steady E m (finishSlice p target first line) (finishSlice q target first line) := by
  refine (at_steady _).bind fun closed => ?_
  have later : ∀ last : Option Expr, Steady E m
      (do
        expect .rightBracket .bracketAfterSlice
        pure (Expr.slice target first last line))
      (do
        expect .rightBracket .bracketAfterSlice
        pure (Expr.slice target first last line)) :=
    fun last => (expect_steady (by decide) _).bind fun _ => .pure _
  exact .ite (.bind (.pure none) later) (.bind (bound.map _) later)

theorem finishAccess_steady (bound : Steady E m p q) (target : Expr) (line : Nat) :
    Steady E m (finishAccess p target line) (finishAccess q target line) := by
  refine (accept_steady (by decide)).bind fun colon => ?_
  refine .ite (finishSlice_steady bound target none line) (bound.bind fun first => ?_)
  refine (accept_steady (by decide)).bind fun colon => ?_
  refine .ite (finishSlice_steady bound target (some first) line) ?_
  exact (expect_steady (by decide) _).bind fun _ => .pure _

theorem accesses_at_end {target : Expr} {c : Cursor} (atEnd : c.peek.kind = .endOfInput) :
    accesses p size n target c = .ok target c := by
  cases n with
  | zero => rfl
  | succ n =>
      refine peek_bind ?_
      rw [atEnd]
      rfl

theorem accesses_steady (inner : Steady E m p q) (fits : m ≤ size)
    (fits' : m + E.tail.length ≤ size') (enough : m ≤ n) (enough' : m + E.tail.length ≤ n')
    (target : Expr) : Steady E m (accesses p size n target) (accesses q size' n' target) := by
  induction n generalizing m n' target with
  | zero =>
      intro k bound c d before
      have left : c.rest = [] := List.eq_nil_of_length_eq_zero (by have := before.short; omega)
      have atEnd : c.peek.kind = .endOfInput := by rw [Cursor.peek, left]
      rw [accesses_at_end atEnd, accesses_at_end (before.peek ▸ atEnd)]
      exact .ok target before
  | succ n ih =>
      intro k bound c d before
      by_cases atEnd : c.peek.kind = .endOfInput
      · rw [accesses_at_end atEnd, accesses_at_end (before.peek ▸ atEnd)]
        exact .ok target before
      · obtain ⟨i, rfl, -⟩ := before.toShows.read atEnd
        obtain ⟨n', rfl⟩ := Nat.exists_eq_add_of_le' (show 1 ≤ n' by omega)
        -- each access reads a token, so the loop goes on with fewer of them in front of the end
        have looked : Steady E (i + 1) (accesses p size (n + 1) target)
            (accesses q size' (n' + 1) target) := by
          refine steady_of_peek fun k bound' c d before => ?_
          have loop : ∀ {j}, k = j + 1 → ∀ target, Steady E j (accesses p size n target)
              (accesses q size' n' target) := fun {j} more target =>
            ih (inner.mono (by omega)) (by omega) (by omega) (by omega) (by omega) target
          generalize found : c.peek.kind = kind
          have reads : kind.Inner → c.peek.kind.Inner := fun inner => found ▸ inner
          split
          · refine before.next_bind (reads (by decide)) fun j more read => ?_
            refine ((finishCall_steady (inner.mono (by omega)) (by omega) (by omega) target _).bind
              (loop more)) j (Nat.le_refl j) _ _ read
          · refine before.next_bind (reads (by decide)) fun j more read => ?_
            refine ((identifier_steady _).bind fun named => ?_) j (Nat.le_refl j) _ _ read
            exact loop more _
          · refine before.next_bind (reads (by decide)) fun j more read => ?_
            exact ((finishAccess_steady (inner.mono (by omega)) target _).bind (loop more)) j
              (Nat.le_refl j) _ _ read
          · exact .ok target before
        exact looked (i + 1) (Nat.le_refl _) c d before

theorem elements_steady (element : Steady E m p q) (fits : m < n)
    (fits' : m + E.tail.length < n') (values : List Expr) :
    Steady E m (elements p n values) (elements q n' values) := by
  induction n generalizing m n' values with
  | zero => omega
  | succ n ih =>
      obtain ⟨n', rfl⟩ := Nat.exists_eq_add_of_le' (show 1 ≤ n' by omega)
      refine (at_steady _).bind fun closed => .ite (.pure values) ?_
      refine element.bind fun value k bound c d before => ?_
      refine before.accept_bind (by decide) (fun j more read => ?_) (.ok _ before)
      exact ih (element.mono (by omega)) (by omega) (by omega) _ j (Nat.le_refl j) _ _ read

theorem finishAssign_steady (target : Expr) (equals : Token) (value : Expr) :
    Steady E m (finishAssign target equals value) (finishAssign target equals value) := by
  cases target with
  | var name line => exact .pure _
  | _ => exact (note_steady _ equals).bind fun _ => .pure _

theorem finishStep_steady (target : Expr) (token : Token) (step : Step) :
    Steady E m (finishStep target token step) (finishStep target token step) := by
  cases target with
  | var name line => exact .pure _
  | _ => exact (note_steady _ token).bind fun _ => .pure _

/-! ## Levels -/

theorem inner_of_symbol {kind : TokenKind} {symbol : Symbol} (found : kind = .symbol symbol)
    (inner : (TokenKind.symbol symbol).Inner) : kind.Inner :=
  found ▸ inner

theorem inner_of_binary {kind : TokenKind} {op : BinaryOp} (found : kind = .symbol op.symbol) :
    kind.Inner :=
  inner_of_symbol found (by cases op <;> decide)

/-- The bounds of the loops suffice for `m` tokens of the part, on its own and in the
text. -/
structure Excerpt.Fits (E : Excerpt) (m size size' : Nat) : Prop where
  part : m ≤ size
  text : m + E.tail.length ≤ size'

/-- A level that reads operands of the next one and its operators between them. -/
theorem level_steady (fits : E.Fits m size size') {γ : Type} {pick : TokenKind → Option γ}
    {join : Expr → Token → γ → Expr → Expr}
    (inner : ∀ {kind op}, pick kind = some op → kind.Inner) (operand : Steady E m p q) :
    Steady E m (p >>= chain pick join p size) (q >>= chain pick join q size') :=
  operand.bind (chain_steady inner operand fits.part fits.text)

mutual

theorem expression_steady (fits : E.Fits m size size') : ∀ room,
    Steady E m (expression size room) (expression size' room)
  | 0 => tooDeep_steady
  | room + 1 => assignment_steady fits room

theorem assignment_steady (fits : E.Fits m size size') : ∀ room,
    Steady E m (assignment size room) (assignment size' room)
  | 0 => tooDeep_steady
  | room + 1 => by
      refine (disjunction_steady fits room).bind fun target => ?_
      refine steady_of_peek fun k bound c d before => ?_
      generalize found : c.peek.kind = kind
      split
      · refine before.next_bind (inner_of_symbol found (by decide)) fun j more read => ?_
        have value := (assignment_steady fits room).mono (show j ≤ m by omega)
        exact (value.bind (finishAssign_steady target _)) j (Nat.le_refl j) _ _ read
      · cases picked : pickStep kind with
        | none => exact .ok target before
        | some step =>
            have inner : kind.Inner :=
              inner_of_symbol (pickStep_iff.mp picked) (by cases step <;> decide)
            refine before.next_bind (found ▸ inner) fun j more read => ?_
            exact finishStep_steady target _ step j (Nat.le_refl j) _ _ read

theorem disjunction_steady (fits : E.Fits m size size') : ∀ room,
    Steady E m (disjunction size room) (disjunction size' room)
  | 0 => tooDeep_steady
  | room + 1 => by
      refine level_steady fits (fun picked => ?_) (conjunction_steady fits room)
      rw [(pickOr_iff.mp picked).1]
      exact ⟨nofun, rfl⟩

theorem conjunction_steady (fits : E.Fits m size size') : ∀ room,
    Steady E m (conjunction size room) (conjunction size' room)
  | 0 => tooDeep_steady
  | room + 1 => by
      refine level_steady fits (fun picked => ?_) (equality_steady fits room)
      rw [(pickAnd_iff.mp picked).1]
      exact ⟨nofun, rfl⟩

theorem equality_steady (fits : E.Fits m size size') : ∀ room,
    Steady E m (equality size room) (equality size' room)
  | 0 | 1 => tooDeep_steady
  | room + 2 => level_steady fits
      (fun picked => inner_of_binary (pickEquality_iff.mp picked).1) (comparison_steady fits room)

theorem comparison_steady (fits : E.Fits m size size') : ∀ room,
    Steady E m (comparison size room) (comparison size' room)
  | 0 | 1 => tooDeep_steady
  | room + 2 => level_steady fits
      (fun picked => inner_of_binary (pickComparison_iff.mp picked).1) (term_steady fits room)

theorem term_steady (fits : E.Fits m size size') : ∀ room,
    Steady E m (term size room) (term size' room)
  | 0 | 1 => tooDeep_steady
  | room + 2 => level_steady fits
      (fun picked => inner_of_binary (pickTerm_iff.mp picked).1) (factor_steady fits room)

theorem factor_steady (fits : E.Fits m size size') : ∀ room,
    Steady E m (factor size room) (factor size' room)
  | 0 | 1 => tooDeep_steady
  | room + 2 => level_steady fits
      (fun picked => inner_of_binary (pickFactor_iff.mp picked).1) (unary_steady fits room)

theorem unary_steady (fits : E.Fits m size size') : ∀ room,
    Steady E m (unary size room) (unary size' room)
  | 0 => tooDeep_steady
  | room + 1 => by
      refine steady_of_peek fun k bound c d before => ?_
      cases picked : pickUnary c.peek.kind with
      | none => exact call_steady fits room k bound c d before
      | some op =>
          have inner : c.peek.kind.Inner :=
            inner_of_symbol (pickUnary_iff.mp picked) (by cases op <;> decide)
          refine before.next_bind inner fun j more read => ?_
          have operand := (unary_steady fits room).mono (show j ≤ m by omega)
          exact (operand.bind fun right => .pure _) j (Nat.le_refl j) _ _ read

theorem call_steady (fits : E.Fits m size size') : ∀ room,
    Steady E m (call size room) (call size' room)
  | 0 => tooDeep_steady
  | room + 1 => (primary_steady fits room).bind
      (accesses_steady (bracketed_steady fits room) fits.part fits.text fits.part fits.text)

theorem bracketed_steady (fits : E.Fits m size size') : ∀ room,
    Steady E m (bracketed size room) (bracketed size' room)
  | 0 => tooDeep_steady
  | room + 1 => expression_steady fits room

theorem primary_steady (fits : E.Fits m size size') : ∀ room,
    Steady E m (primary size room) (primary size' room)
  | 0 => tooDeep_steady
  | room + 1 => by
      refine steady_of_peek fun k bound c d before => ?_
      generalize found : c.peek.kind = kind
      have reads : kind.Inner → c.peek.kind.Inner := fun inner => found ▸ inner
      have constant : ∀ {tree : Expr}, kind.Inner → Agree (E.Before k) (E.Before k)
          ((next >>= fun _ => pure tree) c) ((next >>= fun _ => pure tree) d) :=
        fun inner => before.next_bind (reads inner) fun j more read => .ok _ read
      split
      · exact constant (by decide)
      · exact constant (by decide)
      · exact constant (by decide)
      · exact constant ⟨nofun, rfl⟩
      · exact constant ⟨nofun, rfl⟩
      · exact constant ⟨nofun, rfl⟩
      · refine before.next_bind (reads (by decide)) fun j more read => ?_
        have inner := (expression_steady fits room).mono (show j ≤ m by omega)
        refine (inner.bind fun tree => ?_) j (Nat.le_refl j) _ _ read
        exact (expect_steady (by decide) _).bind fun _ => .pure _
      · refine before.next_bind (reads (by decide)) fun j more read => ?_
        have inner := (expression_steady fits room).mono (show j ≤ m by omega)
        have values := elements_steady inner (show j < size by have := fits.part; omega)
          (show j + E.tail.length < size' by have := fits.text; omega) []
        refine (values.bind fun trees => ?_) j (Nat.le_refl j) _ _ read
        exact (expect_steady (by decide) _).bind fun _ => .pure _
      · exact fail_steady _ k bound c d before

end

end TernLang.Parse
