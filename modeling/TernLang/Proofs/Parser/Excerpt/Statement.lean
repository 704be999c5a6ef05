import TernLang.Proofs.Parser.Excerpt.Closed
import TernLang.Proofs.Parser.Runs

/-! # Parsing the statements of a part of a text

**A declaration that notes no mistake in a part of a text is parsed alike in the text**
(`declaration_recovers`), by induction on the room. Only an `if` looks behind its last
token, for an `else`, so the part must not be followed by one (`Excerpt.Separate`).
-/

namespace TernLang.Parse

variable {E : Excerpt} {m k : Nat}

/-! ## Declarations -/

theorem declarations_stop {inBlock : Bool} {p : Parse (Option Stmt)} {n : Nat} {c : Cursor}
    (stops : (c.peek.kind == .endOfInput ||
      (inBlock && c.peek.kind == .symbol .rightBrace)) = true) :
    declarations inBlock p n c = .ok [] c := by
  cases n with
  | zero => rfl
  | succ n =>
      refine peek_bind ?_
      rw [if_pos stops]
      rfl

/-- Declarations of a block, or outside of all blocks. -/
theorem declarations_follows {p q : Parse (Option Stmt)} (decl : Recovers E m p q)
    (inBlock : Bool) {n n' : Nat} {c d : Cursor} (bound : k ≤ m) (fits : k ≤ n)
    (fits' : k + E.tail.length ≤ n') (shows' : E.Shows k c d)
    (outside : inBlock = true ∨ c.openBlocks = 0) :
    E.Follows k (declarations inBlock p n) (declarations inBlock q n') c d := by
  induction n generalizing k n' c d with
  | zero =>
      have left : c.rest = [] := List.eq_nil_of_length_eq_zero (by have := shows'.short; omega)
      have atEnd : c.peek.kind = .endOfInput := by rw [Cursor.peek, left]
      by_cases more : E.tail = []
      · have atEnd' : d.peek.kind = .endOfInput := by rwa [shows'.peek (.inl more)]
        rw [Excerpt.Follows, declarations_stop (by simp [atEnd]),
          declarations_stop (by simp [atEnd'])]
        exact .inr (.inr (.ok [] shows'))
      · refine .inl ⟨more, fun later => later.rest_ne_nil ?_⟩
        rw [after_ok (declarations_stop (by simp [atEnd])), left]
  | succ n ih =>
      have travels := declarations_travels decl.travels inBlock
      by_cases visible : E.tail = [] ∨ c.rest ≠ []
      · have peeked := shows'.peek visible
        by_cases stops : (c.peek.kind == .endOfInput ||
            (inBlock && c.peek.kind == .symbol .rightBrace)) = true
        · rw [Excerpt.Follows, declarations_stop stops, declarations_stop (by rwa [peeked])]
          exact .inr (.inr (.ok [] shows'))
        · obtain ⟨more, inner⟩ : c.peek.kind ≠ .endOfInput ∧
              (inBlock = true → c.peek.kind ≠ .symbol .rightBrace) := by
            simpa using stops
          obtain ⟨k, rfl, -⟩ := shows'.read more
          obtain ⟨n', rfl⟩ := Nat.exists_eq_add_of_le' (show 1 ≤ n' by omega)
          have notClosing : c.atClosingBrace = false := by
            rcases outside with block | none
            · simp [Cursor.atClosingBrace, Cursor.atSymbol, inner block]
            · simp [Cursor.atClosingBrace, none]
          have unfolded : ∀ {r : Parse (Option Stmt)} {i : Nat} {e : Cursor}, e.peek = c.peek →
              declarations inBlock r (i + 1) e = (do
                let stmt ← r
                let others ← declarations inBlock r i
                pure (stmt.toList ++ others)) e := by
            intro r i e same
            refine peek_bind ?_
            rw [same, if_neg stops]
          refine .congr (unfolded rfl) (unfolded peeked) ?_
          have rest : ∀ stmt : Option Stmt, (do
              let others ← declarations inBlock p n
              pure (stmt.toList ++ others)).Travels :=
            fun stmt => (travels n).bind fun others => pure_travels _
          refine .bind (.inr (decl.run _ bound c d shows')) decl.travels rest ?_
          intro stmt c' d' left shown
          -- the declaration has read a token, so the passes suffice for what is left
          have less := decl.reads c stmt c' left more notClosing
          have short := shows'.short
          have shown' : E.Shows k c' d' := { shown with short := by omega }
          have kept := (decl.travels.ok left).openBlocks
          have others : E.Follows k (declarations inBlock p n) (declarations inBlock q n') c' d' :=
            ih (by omega) (by omega) (by omega) shown' (kept ▸ outside)
          refine (others.mono (Nat.le_succ k)).bind (travels n) (fun _ => pure_travels _) ?_
          exact fun trees e e' _ shows' => .inr (.inr (.ok _ shows'))
      · rw [not_or, ne_eq, Classical.not_not] at visible
        refine .inl ⟨visible.1, fun later => ?_⟩
        exact ((travels (n + 1) c).endsAhead later).rest_ne_nil visible.2

/-- The statements of a block agree until the end of the part is reached. -/
theorem declarations_open {p q : Parse (Option Stmt)} (decl : Recovers E m p q) {n n' : Nat}
    (fits : E.Fits m n n') : Open E m (declarations true p n) (declarations true q n') where
  travels := declarations_travels decl.travels true n
  run k bound c d shows' := by
    have part := fits.part
    have text := fits.text
    exact declarations_follows decl true bound (by omega) (by omega) shows' (.inl rfl)

/-! ## Statements -/

/-- A step behind a token of the part. -/
theorem Closed.behind {p q : Parse Stmt} (closed : Closed E m p q) {c d : Cursor} (bound : k ≤ m)
    (shows' : E.Shows k c d) (visible : E.tail = [] ∨ c.rest ≠ []) :
    E.Tracks k c ((do let _ ← next; p) c) ((do let _ ← next; q) d) := by
  have first : E.Tracks k c (next c) (next d) := by
    rw [next, next, shows'.peek visible]
    exact .inr (.ok _ (shows'.advance visible))
  exact first.bind next_travels (fun _ => closed.travels) fun _ c' d' _ shows' =>
    closed.run k bound c' d' shows'

/-- The head of an `if` or a `while`. -/
theorem condition_open {p q : Parse Expr} (value : Open E m p q) (opening closing : Expectation) :
    Open E m (condition p opening closing) (condition q opening closing) := by
  refine (expect_open _ _).bind fun _ => value.bind fun condition => ?_
  exact (expect_open _ _).bind fun _ => (Steady.pure condition).open (pure_travels condition)

section Heads

variable {size size' : Nat} (fits : E.Fits m size size')
include fits

theorem forInitial_open (room : Nat) :
    Open E m (forInitial size room) (forInitial size' room) := by
  refine peek_open.bind fun token => ?_
  split
  · exact next_open.bind fun _ => (Steady.pure none).open (pure_travels none)
  · exact next_open.bind fun _ => (varDecl_finishes fits _ room).closed.open.map some
  · exact (expressionStmt_finishes fits room).closed.open.map some

/-- The head of a `for`. -/
theorem forClauses_open (room : Nat) :
    Open E m (forClauses size room) (forClauses size' room) := by
  have value := (expression_steady fits room).open (expression_travels size room)
  have test : Open E m (forCondition (expression size room))
      (forCondition (expression size' room)) := by
    refine peek_open.bind fun token => ?_
    split
    · exact (Steady.pure _).open (pure_travels _)
    · exact value
  refine (expect_open _ _).bind fun _ => (forInitial_open fits room).bind fun initial => ?_
  refine test.bind fun condition => (expect_open _ _).bind fun _ => (at_open _).bind fun closed => ?_
  have later : ∀ advance : Option Expr, Open E m
      (do
        expect .rightParen .parenAfterClauses
        pure (initial, condition, advance))
      (do
        expect .rightParen .parenAfterClauses
        pure (initial, condition, advance)) :=
    fun advance => (expect_open _ _).bind fun _ => (Steady.pure _).open (pure_travels _)
  cases closed with
  | true => exact ((Steady.pure none).open (pure_travels none)).bind later
  | false => exact (value.map some).bind later

end Heads

section Branches

variable {size size' : Nat} {r s : Parse Stmt} (fits : E.Fits m size size')
  (branch : Closed E m r s)
include fits branch

/-- An if statement after its keyword. Behind the part, there is no `else` that could
belong to it. -/
theorem ifStmt_closed (separate : E.Separate) (room line : Nat) :
    Closed E m (ifStmt (expression size room) r line) (ifStmt (expression size' room) s line) := by
  have value := (expression_steady fits room).open (expression_travels size room)
  rw [ifStmt_eq, ifStmt_eq]
  refine (condition_open value _ _).closed fun condition => ?_
  refine branch.bind (fun thenBranch => peek_travels.bind fun token => ?_) ?_
  · split
    · exact next_travels.bind fun _ => branch.travels.bind fun _ => pure_travels _
    · exact pure_travels _
  · intro k bound thenBranch c d shows'
    refine .peek ?_
    by_cases visible : E.tail = [] ∨ c.rest ≠ []
    · rw [shows'.peek visible]
      generalize c.peek.kind = kind
      split
      · exact (branch.map _).behind bound shows' visible
      · exact .inr (.ok _ shows')
    · rw [not_or, ne_eq, Classical.not_not] at visible
      obtain ⟨token, others, tail⟩ := List.exists_cons_of_ne_nil visible.1
      have here : c.peek.kind = .endOfInput := by rw [Cursor.peek, visible.2]
      have there : d.peek = token := by rw [Cursor.peek, shows'.rest, visible.2, tail]; rfl
      have other := separate token others tail
      rw [here, there]
      generalize token.kind = kind at other ⊢
      split
      · exact absurd rfl other
      · exact .inr (.ok _ shows')

theorem whileStmt_closed (room line : Nat) :
    Closed E m (whileStmt (expression size room) r line)
      (whileStmt (expression size' room) s line) := by
  have value := (expression_steady fits room).open (expression_travels size room)
  rw [whileStmt_eq, whileStmt_eq]
  exact (condition_open value _ _).closed fun _ => branch.map _

theorem forStmt_closed (room line : Nat) :
    Closed E m (forStmt size room r line) (forStmt size' room s line) := by
  rw [forStmt_eq, forStmt_eq]
  exact (forClauses_open fits room).closed fun _ => branch.map _

end Branches

theorem parameters_steady {n n' : Nat} (fits : m < n) (fits' : m + E.tail.length < n')
    (names : List String) : Steady E m (parameters n names) (parameters n' names) := by
  induction n generalizing m n' names with
  | zero => omega
  | succ n ih =>
      obtain ⟨n', rfl⟩ := Nat.exists_eq_add_of_le' (show 1 ≤ n' by omega)
      have later : Steady E m
          (do
            let named ← identifier .parameterName
            if ← accept .comma then parameters n (names ++ [named.1])
            else pure (names ++ [named.1]))
          (do
            let named ← identifier .parameterName
            if ← accept .comma then parameters n' (names ++ [named.1])
            else pure (names ++ [named.1])) := by
        refine (identifier_steady _).bind fun named k bound c d before => ?_
        refine before.accept_bind (by decide) (fun j more read => ?_) (.ok _ before)
        exact ih (show j < n by omega) (by omega) _ j (Nat.le_refl j) _ _ read
      rw [parameters, parameters]
      exact .ite (peek_steady.bind fun token => (note_steady _ token).bind fun _ => later) later

theorem functionHead_steady {size size' : Nat} (fits : E.Fits m size size') :
    Steady E m (functionHead size) (functionHead size') := by
  intro k bound c d before
  have part := fits.part
  have text := fits.text
  refine before.identifier_bind _ fun j named more read => ?_
  have later : ∀ params : List String, Steady E j
      (do
        expect .rightParen .parenAfterParameters
        expect .leftBrace .braceBeforeBody
        pure (named.1, params))
      (do
        expect .rightParen .parenAfterParameters
        expect .leftBrace .braceBeforeBody
        pure (named.1, params)) :=
    fun params => (expect_steady (by decide) _).bind fun _ =>
      (expect_steady (by decide) _).bind fun _ => .pure _
  refine ((expect_steady (by decide) _).bind fun _ => (at_steady _).bind fun closed => ?_) j
    (Nat.le_refl j) _ _ read
  exact .ite (.bind (.pure []) later)
    (.bind (parameters_steady (by omega) (by omega) []) later)

section Levels

variable {size size' : Nat}

mutual

/-- Declarations agree unless the first one notes a mistake, and they read a token if they
can. -/
theorem declaration_recovers (fits : E.Fits m size size') (separate : E.Separate) : ∀ room,
    Recovers E m (declaration size room) (declaration size' room)
  | 0 | 1 | 2 | 3 | 4 => recovers_tooDeep
  | room + 5 => by
      refine Closed.recovers (peek_open.closed fun token => ?_)
      split
      · exact next_open.closed fun _ => function_closed fits separate token.line (room + 4)
      · exact next_open.closed fun _ => (varDecl_finishes fits token.line (room + 4)).closed
      · exact statement_closed fits separate (room + 4)

theorem function_closed (fits : E.Fits m size size') (separate : E.Separate) (line : Nat) :
    ∀ room, Closed E m (function size line room) (function size' line room)
  | 0 => closed_tooDeep
  | room + 1 => by
      have head := (functionHead_steady fits).open (functionHead_travels size)
      exact head.closed fun (name, params) => (block_closed fits separate room).map _

theorem block_closed (fits : E.Fits m size size') (separate : E.Separate) : ∀ room,
    Closed E m (block size room) (block size' room)
  | 0 => closed_tooDeep
  | room + 1 => by
      have body := declarations_open (declaration_recovers fits separate room) fits
      exact (insideBlock_open body).closed fun body => (closed_brace _).map fun _ => body

/-- A statement ends with a token of its own, whatever lies behind the part. -/
theorem statement_closed (fits : E.Fits m size size') (separate : E.Separate) : ∀ room,
    Closed E m (statement size room) (statement size' room)
  | 0 | 1 => closed_tooDeep
  | room + 2 => by
      have inner := statement_closed fits separate room
      refine peek_open.closed fun token => ?_
      split
      · exact next_open.closed fun _ => forStmt_closed fits inner room token.line
      · exact next_open.closed fun _ => ifStmt_closed fits inner separate room token.line
      · exact next_open.closed fun _ => (printStmt_finishes fits room token.line).closed
      · exact next_open.closed fun _ => (returnStmt_finishes fits room token.line).closed
      · exact next_open.closed fun _ => whileStmt_closed fits inner room token.line
      · exact next_open.closed fun _ => (block_closed fits separate (room + 1)).map _
      · exact (expressionStmt_finishes fits (room + 1)).closed

end

end Levels

end TernLang.Parse
