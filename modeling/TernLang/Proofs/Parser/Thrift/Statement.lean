import TernLang.Proofs.Parser.Tasks
import TernLang.Proofs.Parser.Thrift

/-! # Statements pay for their mistakes

**A declaration owes nothing** (`declaration_allows`): the mistake that it is given up for
is paid by a token that was read before, or by the one that is skipped when it is left. At
least one is skipped, because a declaration starts neither at the end nor in front of the
brace that closes the open block. So a list of declarations owes nothing either
(`declarations_allows`), and all mistakes of a program together are paid by its tokens.
-/

namespace TernLang.Parse

section Rules

variable {α β : Type} {p : Parse α} {c : Cursor} {L : Nat} {n : ℤ}

theorem thrifty_accept_free {symbol : Symbol} {f : Bool → Parse β}
    (rest : ∀ found, Thrifty L 0 (f found)) : Thrifty L 0 (accept symbol >>= f) :=
  thrifty_accept_bind (fun _ => (rest true).weaken (Nat.sub_le L 1) (by decide)) (rest false)

/-- The blocks that are open do not count. -/
theorem Thrifty.insideBlock (thrifty : Thrifty L n p) : Thrifty L n (Parse.insideBlock p) := by
  intro c short
  have inner := thrifty { c with openBlocks := c.openBlocks + 1 } short
  cases run : p { c with openBlocks := c.openBlocks + 1 } with
  | ok a d =>
      rw [insideBlock_run_ok run]
      rw [run] at inner
      exact Cursor.Owes.inside inner
  | error stop d =>
      rw [insideBlock_run_error run]
      rw [run] at inner
      obtain ⟨mistake, same | owes⟩ := inner
      · exact ⟨mistake, .inl (by rw [same]; rfl)⟩
      · exact ⟨mistake, .inr owes.inside⟩

/-- **A mistake is paid for** by what the step has read, or by what is skipped. -/
theorem allows_recover {p : Parse Stmt} (step : Allows c (-1) (p c))
    (more : c.peek.kind ≠ .endOfInput) (inside : c.atClosingBrace = false) :
    Allows c 0 (recover p c) := by
  cases run : p c with
  | ok stmt d =>
      rw [recover_run_ok run]
      rw [run] at step
      exact Cursor.Owes.mono step (by decide)
  | error stop d =>
      rw [run] at step
      obtain ⟨mistake, way⟩ := step
      cases stop with
      | tooDeep => exact mistake.elim
      | mistake error =>
          rw [recover_run_mistake run]
          have noted : d.Owes 1 (d.report error) := Cursor.owes_report mistake
          -- a step that has read nothing leaves a token to be skipped
          rcases way with rfl | owes
          · exact noted.trans (Cursor.owes_synchronize_read more inside)
          · exact (owes.trans noted).trans (Cursor.owes_synchronize _)

end Rules

/-! ## Simple statements and heads -/

section Simple

variable {L : Nat} {expr : Parse Expr} (value : Thrifty L (-1) expr)

theorem varDecl_thrifty (size line : Nat) :
    ∀ room L, 15 * L + 16 ≤ room → Thrifty L 0 (varDecl size line room) := by
  intro room L enough
  cases room with
  | zero => omega
  | succ room =>
      refine (thrifty_identifier _).free.bind fun named => thrifty_accept_free fun given => ?_
      have later : ∀ initial, Thrifty L 0 (do
          expect .semicolon .semicolonAfterDeclaration
          pure (Stmt.varDecl named.1 initial line)) :=
        fun initial => (thrifty_expect _ _).free.bind fun _ => thrifty_pure _
      have value := (expression_thrifty size room L (by omega)).free
      exact .ite ((value.map some).bind later) ((thrifty_pure none).bind later)

theorem expressionStmt_thrifty (size : Nat) :
    ∀ room L, 15 * L + 16 ≤ room → Thrifty L (-1) (expressionStmt size room) := by
  intro room L enough
  cases room with
  | zero => omega
  | succ room =>
      refine (expression_thrifty size room L (by omega)).bind fun _ => ?_
      exact (thrifty_expect _ _).free.bind fun _ => thrifty_pure _

theorem parameters_thrifty (size : Nat) (before : List String) :
    Thrifty L 1 (parameters size before) := by
  induction size generalizing before with
  | zero => exact (thrifty_pure before).weaken (Nat.le_refl _) (by decide)
  | succ size ih =>
      have later : Thrifty L 0 (do
          let named ← identifier .parameterName
          if ← accept .comma then parameters size (before ++ [named.1])
          else pure (before ++ [named.1])) :=
        (thrifty_identifier _).free.bind fun _ =>
          thrifty_accept_bind (fun _ => (ih _).fewer) (thrifty_pure _)
      refine .ite (thrifty_of_peek fun c => ?_) (later.weaken (Nat.le_refl _) (by decide))
      exact ((thrifty_note _ _).bind fun _ => later) c

theorem functionHead_thrifty (size : Nat) : Thrifty L 0 (functionHead size) := by
  refine (thrifty_identifier _).free.bind fun (name, _) => (thrifty_expect _ _).spend fun _ _ => ?_
  refine thrifty_at_bind fun closed => ?_
  have later : ∀ params : List String, Thrifty (L - 1) 0 (do
      expect .rightParen .parenAfterParameters
      expect .leftBrace .braceBeforeBody
      pure (name, params)) :=
    fun params => (thrifty_expect _ _).free.bind fun _ => (thrifty_expect _ _).free.bind fun _ =>
      thrifty_pure _
  refine .ite ?_ ((parameters_thrifty size []).bind later)
  exact ((thrifty_pure []).bind later).weaken (Nat.le_refl _) (by decide)

theorem forInitial_thrifty (size : Nat) {room L : Nat} (enough : 15 * L + 16 ≤ room) :
    Thrifty L 0 (forInitial size room) := by
  refine thrifty_of_peek fun c short => ?_
  generalize found : c.peek.kind = kind
  split
  · refine (keeps_next (more_of_kind found nofun) short fun _ _ => ?_).mono (by decide)
    exact thrifty_pure none
  · refine (keeps_next (more_of_kind found nofun) short fun _ _ => ?_).mono (by decide)
    exact (varDecl_thrifty size _ room _ (by omega)).map some
  · exact (expressionStmt_thrifty size room L enough).free.map some c short

include value

theorem printStmt_thrifty (line : Nat) : Thrifty L 0 (printStmt expr line) :=
  value.free.bind fun _ => (thrifty_expect _ _).free.bind fun _ => thrifty_pure _

theorem returnStmt_thrifty (line : Nat) : Thrifty L 0 (returnStmt expr line) := by
  refine thrifty_at_bind fun closed => ?_
  have later : ∀ value, Thrifty L 0 (do
      expect .semicolon .semicolonAfterReturn
      pure (Stmt.returnValue value line)) :=
    fun value => (thrifty_expect _ _).free.bind fun _ => thrifty_pure _
  exact .ite ((thrifty_pure none).bind later) ((value.free.map some).bind later)

theorem condition_thrifty (opening closing : Expectation) :
    Thrifty L 0 (condition expr opening closing) :=
  (thrifty_expect _ _).free.bind fun _ => value.free.bind fun _ =>
    (thrifty_expect _ _).free.bind fun _ => thrifty_pure _

theorem forCondition_thrifty : Thrifty L 0 (forCondition expr) := by
  refine thrifty_of_peek fun c short => ?_
  generalize c.peek.kind = kind
  split
  · exact thrifty_pure _ c short
  · exact value.free c short

omit value

theorem forClauses_thrifty (size : Nat) {room L : Nat} (enough : 15 * L + 16 ≤ room) :
    Thrifty L 0 (forClauses size room) := by
  have value := expression_thrifty size room L (by omega)
  refine (thrifty_expect _ _).free.bind fun _ =>
    (forInitial_thrifty size enough).bind fun initial => ?_
  refine (forCondition_thrifty value).bind fun condition =>
    (thrifty_expect _ _).free.bind fun _ => thrifty_at_bind fun closed => ?_
  have later : ∀ advance, Thrifty L 0 (do
      expect .rightParen .parenAfterClauses
      pure ((initial, condition, advance) : Option Stmt × Expr × Option Expr)) :=
    fun advance => (thrifty_expect _ _).free.bind fun _ => thrifty_pure _
  exact .ite ((thrifty_pure none).bind later) ((value.free.map some).bind later)

end Simple

section Compound

variable {L : Nat} {expr : Parse Expr} (value : Thrifty L (-1) expr) {body : Parse Stmt}
  (inner : Thrifty L 0 body)
include value inner

theorem ifStmt_thrifty (line : Nat) : Thrifty L 0 (ifStmt expr body line) := by
  rw [ifStmt_eq]
  refine (condition_thrifty value _ _).bind fun test => inner.bind fun thenBranch =>
    thrifty_of_peek fun c short => ?_
  generalize found : c.peek.kind = kind
  split
  · refine (keeps_next (more_of_kind found nofun) short fun _ _ => ?_).mono (by decide)
    exact (inner.bind fun elseBranch => thrifty_pure _).fewer
  · exact thrifty_pure _ c short

theorem whileStmt_thrifty (line : Nat) : Thrifty L 0 (whileStmt expr body line) := by
  rw [whileStmt_eq]
  exact (condition_thrifty value _ _).bind fun test => inner.bind fun _ => thrifty_pure _

end Compound

theorem forStmt_thrifty (size : Nat) {room L : Nat} (enough : 15 * L + 16 ≤ room)
    {body : Parse Stmt} (inner : Thrifty L 0 body) (line : Nat) :
    Thrifty L 0 (forStmt size room body line) := by
  rw [forStmt_eq]
  exact (forClauses_thrifty size enough).bind fun clauses => inner.bind fun _ => thrifty_pure _

/-! ## Declarations -/

/-- Where the list of declarations goes on, the next one may start. Outside of blocks a
closing brace closes none. -/
theorem starts_of_goes {inBlock : Bool} {c : Cursor}
    (goes : ¬ (c.peek.kind == .endOfInput || inBlock && c.peek.kind == .symbol .rightBrace) = true)
    (outside : inBlock = false → c.openBlocks = 0) :
    c.peek.kind ≠ .endOfInput ∧ c.atClosingBrace = false := by
  simp only [Bool.or_eq_true, beq_iff_eq, Bool.and_eq_true, not_or, not_and] at goes
  refine ⟨goes.1, ?_⟩
  cases inBlock with
  | true => simp [Cursor.atClosingBrace, Cursor.atSymbol, goes.2 rfl]
  | false => simp [Cursor.atClosingBrace, outside rfl]

/-- **Declarations that owe nothing** owe nothing one after the other. -/
theorem declarations_allows {decl : Parse (Option Stmt)} {L : Nat} (travels : decl.Travels)
    (allows : ∀ c : Cursor, c.rest.length ≤ L → c.peek.kind ≠ .endOfInput →
      c.atClosingBrace = false → Allows c 0 (decl c))
    {inBlock : Bool} (passes : Nat) {c : Cursor} (short : c.rest.length ≤ L)
    (outside : inBlock = false → c.openBlocks = 0) :
    Allows c 0 (declarations inBlock decl passes c) := by
  induction passes generalizing c with
  | zero => exact c.owes_refl
  | succ passes ih =>
      show Allows c 0 ((if _ then _ else _ : Parse (List Stmt)) c)
      split
      · exact c.owes_refl
      · rename_i goes
        obtain ⟨more, inside⟩ := starts_of_goes goes outside
        refine allows_bind (allows c short more inside) le_rfl fun stmt d run owes => ?_
        have blocks := (travels.ok run).openBlocks
        refine allows_bind (ih (owes.length_le.trans short) fun none => ?_) le_rfl
          fun others e _ _ => e.owes_refl
        exact blocks.trans (outside none)

mutual

/-- **A declaration owes nothing.** It starts in front of a token that is not the brace which
closes the open block. -/
theorem declaration_allows (size : Nat) :
    ∀ room L, 15 * L + 18 ≤ room → ∀ c : Cursor, c.rest.length ≤ L →
      c.peek.kind ≠ .endOfInput → c.atClosingBrace = false → Allows c 0 (declaration size room c)
  | 0, L, enough | 1, L, enough | 2, L, enough | 3, L, enough | 4, L, enough =>
      absurd enough (by omega)
  | room + 5, L, enough => by
      have step : Thrifty L (-1) (declared size (room + 4)) := by
        refine thrifty_of_peek fun c short => ?_
        generalize found : c.peek.kind = kind
        split
        · exact keeps_next (more_of_kind found nofun) short fun _ _ =>
            function_thrifty size _ (room + 4) _ (by omega)
        · exact keeps_next (more_of_kind found nofun) short fun _ _ =>
            varDecl_thrifty size _ (room + 4) _ (by omega)
        · exact statement_thrifty size (room + 4) L (by omega) c short
      exact fun c short more inside => allows_recover (step c short) more inside

theorem function_thrifty (size line : Nat) :
    ∀ room L, 15 * L + 20 ≤ room → Thrifty L 0 (function size line room)
  | 0, L, enough => absurd enough (by omega)
  | room + 1, L, enough => (functionHead_thrifty size).bind fun (name, params) =>
      (block_thrifty size room L (by omega)).bind fun body => thrifty_pure _

theorem block_thrifty (size : Nat) :
    ∀ room L, 15 * L + 19 ≤ room → Thrifty L 0 (block size room)
  | 0, L, enough => absurd enough (by omega)
  | room + 1, L, enough => by
      have body : Thrifty L 0 (declarations true (declaration size room) size) := fun c short =>
        declarations_allows (declaration_travels size room)
          (declaration_allows size room L (by omega)) size short nofun
      refine body.insideBlock.bind fun stmts => ?_
      exact (thrifty_expect _ _).free.bind fun _ => thrifty_pure _

theorem statement_thrifty (size : Nat) :
    ∀ room L, 15 * L + 17 ≤ room → Thrifty L (-1) (statement size room)
  | 0, L, enough | 1, L, enough => absurd enough (by omega)
  | room + 2, L, enough => by
      refine thrifty_of_peek fun c short => ?_
      generalize found : c.peek.kind = kind
      -- the keyword has been read, so what it stands in front of has one token less ahead
      have value (some : 0 < L) := expression_thrifty size room (L - 1) (by omega)
      have inner (some : 0 < L) := (statement_thrifty size room (L - 1) (by omega)).free
      split
      · exact keeps_next (more_of_kind found nofun) short fun _ some =>
          forStmt_thrifty size (by omega) (inner some) _
      · exact keeps_next (more_of_kind found nofun) short fun _ some =>
          ifStmt_thrifty (value some) (inner some) _
      · exact keeps_next (more_of_kind found nofun) short fun _ some =>
          printStmt_thrifty (value some) _
      · exact keeps_next (more_of_kind found nofun) short fun _ some =>
          returnStmt_thrifty (value some) _
      · exact keeps_next (more_of_kind found nofun) short fun _ some =>
          whileStmt_thrifty (value some) (inner some) _
      · exact keeps_next (more_of_kind found nofun) short fun _ some =>
          (block_thrifty size (room + 1) _ (by omega)).bind fun body => thrifty_pure _
      · exact expressionStmt_thrifty size (room + 1) L (by omega) c short

end

end TernLang.Parse
