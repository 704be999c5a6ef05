import TernLang.Proofs.Parser.Excerpt.Simple

/-! # Braces

`openBehind n tokens` counts the blocks that are open behind the tokens if `n` are open
in front of them; there is no such number if a brace closes no block. Tokens are
`Balanced` if every brace in them has its match.

`c.Climbs n m d` says this of what is read between two cursors. **An expression reads
balanced tokens, and so does a simple statement** (`expression_even`, `varDecl_even`),
however it ends.
-/

namespace TernLang

open Grammar

/-- The number of blocks that are open behind a token, if `n` are open in front. -/
def TokenKind.openBehind (n : Nat) : TokenKind → Option Nat
  | .symbol .leftBrace => some (n + 1)
  | .symbol .rightBrace => if n = 0 then none else some (n - 1)
  | _ => some n

/-- The number of blocks that are open behind the tokens, if `n` are open in front. -/
def openBehind (n : Nat) (tokens : List Token) : Option Nat :=
  tokens.foldlM (fun n token => token.kind.openBehind n) n

/-- Every brace in the tokens has its match. -/
def Balanced (tokens : List Token) : Prop :=
  openBehind 0 tokens = some 0

instance (tokens : List Token) : Decidable (Balanced tokens) :=
  inferInstanceAs (Decidable (_ = _))

section OpenBehind

variable {n m k : Nat} {token : Token} {tokens others : List Token}

theorem openBehind_cons :
    openBehind n (token :: tokens) = (token.kind.openBehind n).bind (openBehind · tokens) := rfl

/-- The braces open behind a list are those open behind its second part, from the first. -/
theorem openBehind_append :
    openBehind n (tokens ++ others) = (openBehind n tokens).bind (openBehind · others) :=
  List.foldlM_append

/-- Reading on behind some tokens. -/
theorem openBehind_trans (first : openBehind n tokens = some m) :
    openBehind n (tokens ++ others) = openBehind m others := by
  rw [openBehind_append, first, Option.bind_some]

/-- More open braces outside change nothing for a token that can be passed with fewer. -/
theorem TokenKind.openBehind_raise {kind : TokenKind} (climbs : kind.openBehind n = some m) :
    kind.openBehind (n + k) = some (m + k) := by
  unfold TokenKind.openBehind at climbs ⊢
  split at climbs
  · cases climbs
    exact congrArg some (Nat.add_right_comm n k 1)
  · split at climbs
    · cases climbs
    · cases climbs
      rw [if_neg (by omega), Option.some.injEq]
      omega
  · cases climbs
    simp_all

/-- More open blocks around the tokens stay open. -/
theorem openBehind_raise (climbs : openBehind n tokens = some m) :
    openBehind (n + k) tokens = some (m + k) := by
  induction tokens generalizing n with
  | nil =>
      cases climbs
      rfl
  | cons token tokens ih =>
      rw [openBehind_cons, Option.bind_eq_some_iff] at climbs
      obtain ⟨behind, first, rest⟩ := climbs
      rw [openBehind_cons, TokenKind.openBehind_raise first, Option.bind_some]
      exact ih rest

theorem TokenKind.openBehind_plain {kind : TokenKind} (notOpening : kind ≠ .symbol .leftBrace)
    (notClosing : kind ≠ .symbol .rightBrace) : kind.openBehind n = some n := by
  unfold TokenKind.openBehind
  split
  · exact absurd rfl notOpening
  · exact absurd rfl notClosing
  · rfl

/-- Without closing braces, every opening one adds a block. -/
theorem openBehind_of_notClosing
    (notClosing : ∀ token ∈ tokens, token.kind ≠ .symbol .rightBrace) :
    ∃ m, openBehind n tokens = some (n + m) ∧
      (1 ≤ m ↔ ∃ token ∈ tokens, token.kind = .symbol .leftBrace) := by
  induction tokens generalizing n with
  | nil => exact ⟨0, rfl, by simp⟩
  | cons token tokens ih =>
      obtain ⟨here, later⟩ := List.forall_mem_cons.mp notClosing
      by_cases opening : token.kind = .symbol .leftBrace
      · obtain ⟨m, rest, -⟩ := @ih (n + 1) later
        refine ⟨m + 1, ?_, by simp [opening]⟩
        rw [openBehind_cons, opening]
        exact rest.trans (by rw [Nat.add_right_comm, Nat.add_assoc])
      · obtain ⟨m, rest, counted⟩ := @ih n later
        refine ⟨m, ?_, by simp [opening, counted]⟩
        rw [openBehind_cons, TokenKind.openBehind_plain opening here]
        exact rest

/-- Where no block is open, no closing brace comes before an opening one. -/
theorem notClosing_of_outside (closed : openBehind 0 (tokens ++ others) ≠ none)
    (notOpening : ∀ token ∈ tokens, token.kind ≠ .symbol .leftBrace) :
    ∀ token ∈ tokens, token.kind ≠ .symbol .rightBrace := by
  induction tokens with
  | nil => nofun
  | cons token tokens ih =>
      obtain ⟨here, later⟩ := List.forall_mem_cons.mp notOpening
      have other : token.kind ≠ .symbol .rightBrace := by
        intro closing
        rw [List.cons_append, openBehind_cons, closing] at closed
        exact closed rfl
      refine List.forall_mem_cons.mpr ⟨other, ih ?_ later⟩
      rwa [List.cons_append, openBehind_cons, TokenKind.openBehind_plain here other] at closed

end OpenBehind

/-! ## Between two cursors -/

namespace Cursor

/-- What is read between the cursors leads from `n` open blocks to `m`; the parser counts
as many open blocks at the end as at the start. -/
structure Climbs (c : Cursor) (n m : Nat) (d : Cursor) : Prop where
  blocks : d.openBlocks = c.openBlocks
  read : ∃ tokens, c.rest = tokens ++ d.rest ∧ openBehind n tokens = some m

variable {c d e : Cursor} {n m k : Nat}

theorem Climbs.refl : c.Climbs n n c :=
  ⟨rfl, [], rfl, rfl⟩

theorem Climbs.trans (first : c.Climbs n m d) (second : d.Climbs m k e) : c.Climbs n k e := by
  obtain ⟨tokens, rest, climbs⟩ := first.read
  obtain ⟨others, rest', climbs'⟩ := second.read
  refine ⟨second.blocks.trans first.blocks, tokens ++ others, ?_, ?_⟩
  · rw [rest, rest', List.append_assoc]
  · rw [openBehind_trans climbs, climbs']

/-- A stretch passed from one depth is passed from every greater one. -/
theorem Climbs.raise (climbs : c.Climbs n m d) : c.Climbs (n + k) (m + k) d := by
  obtain ⟨tokens, rest, read⟩ := climbs.read
  exact ⟨climbs.blocks, tokens, rest, openBehind_raise read⟩

/-- The braces that are left close as many blocks as they did before. -/
theorem Climbs.rest (climbs : c.Climbs n m d) : openBehind n c.rest = openBehind m d.rest := by
  obtain ⟨tokens, rest, read⟩ := climbs.read
  rw [rest, openBehind_trans read]

theorem climbs_advance (kind : c.peek.kind.openBehind n = some m) : c.Climbs n m c.advance := by
  by_cases atEnd : c.peek.kind = .endOfInput
  · rw [atEnd] at kind
    cases kind
    simp only [advance, if_pos atEnd]
    exact ⟨rfl, [], rfl, rfl⟩
  · have reads := reads_advance atEnd
    refine ⟨reads.openBlocks, _, reads.rest, ?_⟩
    rw [openBehind_cons, kind]
    rfl

end Cursor

namespace Parse

/-- The step reads balanced tokens, wherever it starts and however it ends. -/
def Even {α : Type} (step : Parse α) : Prop :=
  ∀ c : Cursor, c.Climbs 0 0 (step.after c)

section Rules

variable {α β : Type} {p q : Parse α} {f : α → Parse β} {c d : Cursor} {n m k : Nat}

theorem Even.ok (even : p.Even) {a : α} (run : p c = .ok a d) : c.Climbs 0 0 d :=
  after_ok run ▸ even c

theorem Even.error (even : p.Even) {stop : ParseStop} (run : p c = .error stop d) :
    c.Climbs 0 0 d :=
  after_error run ▸ even c

theorem after_bind_ok {a : α} (run : p c = .ok a d) : (p >>= f).after c = (f a).after d := by
  rw [after, bind_run_ok run, after]

theorem after_bind_error {stop : ParseStop} (run : p c = .error stop d) :
    (p >>= f).after c = d :=
  after_error (bind_run_error run)

/-- A step that does nothing more with the cursor. -/
theorem after_bind_pure {g : α → β} : (p >>= fun a => pure (g a)).after c = p.after c := by
  cases run : p c with
  | ok a d =>
      rw [after_bind_ok run, after_ok run]
      rfl
  | error stop d => rw [after_bind_error run, after_error run]

theorem after_peek_bind {f : Token → Parse α} : (peek >>= f).after c = (f c.peek).after c :=
  rfl

theorem after_next_bind {f : Token → Parse α} : (next >>= f).after c = (f c.peek).after c.advance :=
  rfl

/-- Two steps, where the first one reads balanced tokens if it stops. -/
theorem climbs_bind (first : ∀ a d, p c = .ok a d → c.Climbs n m ((f a).after d))
    (stopped : ∀ stop d, p c = .error stop d → c.Climbs n m d) :
    c.Climbs n m ((p >>= f).after c) := by
  cases run : p c with
  | ok a d =>
      rw [after_bind_ok run]
      exact first a d run
  | error stop d =>
      rw [after_bind_error run]
      exact stopped stop d run

theorem Even.bind (first : p.Even) (second : ∀ a, (f a).Even) : (p >>= f).Even :=
  fun _ => climbs_bind (fun a d run => (first.ok run).trans (second a d))
    fun _ _ run => first.error run

theorem even_of_stay (stays : ∀ c, p.after c = c) : p.Even := by
  intro c
  rw [stays c]
  exact .refl

theorem even_pure (a : α) : (pure a : Parse α).Even :=
  even_of_stay fun _ => rfl

theorem even_tooDeep : (tooDeep : Parse α).Even :=
  even_of_stay fun _ => rfl

theorem even_fail (expected : Expectation) : (fail expected : Parse α).Even :=
  even_of_stay fun _ => rfl

theorem even_note (expected : Expectation) (token : Token) : (note expected token).Even :=
  fun _ => ⟨rfl, [], rfl, rfl⟩

theorem even_peek : peek.Even :=
  even_of_stay fun _ => rfl

theorem even_at (symbol : Symbol) : (at? symbol).Even :=
  even_of_stay fun _ => rfl

theorem Even.map {γ : Type} (even : p.Even) (g : α → γ) : (g <$> p).Even := by
  rw [map_eq_pure_bind]
  exact even.bind fun a => even_pure (g a)

theorem Even.ite {condition : Prop} [Decidable condition] (thenStep : p.Even)
    (elseStep : q.Even) : (if condition then p else q).Even := by
  split
  · exact thenStep
  · exact elseStep

/-- A step that looks at the next token first. -/
theorem even_of_peek {f : Token → Parse α}
    (rest : ∀ c : Cursor, c.Climbs 0 0 ((f c.peek).after c)) : (peek >>= f).Even :=
  rest

/-- Reading a token that was looked at. -/
theorem climbs_next_bind {f : Token → Parse α} (kind : c.peek.kind.openBehind n = some m)
    (rest : ∀ token (d : Cursor), d.Climbs m k ((f token).after d)) :
    c.Climbs n k ((next >>= f).after c) :=
  (Cursor.climbs_advance kind).trans (rest c.peek c.advance)

theorem climbs_accept {symbol : Symbol} (kind : (TokenKind.symbol symbol).openBehind n = some n) :
    c.Climbs n n ((accept symbol).after c) := by
  unfold after accept
  split
  · rename_i run
    split at run
    · rename_i found
      cases run
      exact Cursor.climbs_advance (Cursor.atSymbol_iff.mp found ▸ kind)
    · cases run
      exact .refl
  · rename_i run
    split at run <;> cases run

theorem even_accept {symbol : Symbol} (kind : (TokenKind.symbol symbol).openBehind 0 = some 0) :
    (accept symbol).Even :=
  fun _ => climbs_accept kind

theorem climbs_expect_ok {symbol : Symbol} {expected : Expectation}
    (kind : (TokenKind.symbol symbol).openBehind n = some m)
    (run : expect symbol expected c = .ok () d) : c.Climbs n m d := by
  unfold expect at run
  split at run
  · rename_i found
    cases run
    exact Cursor.climbs_advance (Cursor.atSymbol_iff.mp found ▸ kind)
  · cases run

/-- A symbol missed is not read over. -/
theorem expect_error {symbol : Symbol} {expected : Expectation} {stop : ParseStop}
    (run : expect symbol expected c = .error stop d) : d = c := by
  unfold expect at run
  split at run
  · cases run
  · cases run
    rfl

/-- Expecting any symbol but a brace is even, whether it is there or not. -/
theorem even_expect {symbol : Symbol} (kind : (TokenKind.symbol symbol).openBehind 0 = some 0)
    (expected : Expectation) : (expect symbol expected).Even := by
  intro c
  cases run : expect symbol expected c with
  | ok a d =>
      rw [after_ok run]
      exact climbs_expect_ok kind run
  | error stop d =>
      rw [after_error run, expect_error run]
      exact .refl

theorem even_identifier (expected : Expectation) : (identifier expected).Even := by
  intro c
  unfold after identifier
  split
  · rename_i run
    split at run
    · rename_i found
      cases run
      exact Cursor.climbs_advance (by rw [found]; rfl)
    · cases run
  · rename_i run
    split at run
    · cases run
    · cases run
      exact .refl

end Rules

/-! ## Expressions -/

section Loops

variable {p : Parse Expr} (operand : p.Even)
include operand

/-- A chain of operators that are no braces is even when its operands are. -/
theorem chain_even {γ : Type} {pick : TokenKind → Option γ} {join : Expr → Token → γ → Expr → Expr}
    (plain : ∀ {kind op}, pick kind = some op → kind.openBehind 0 = some 0) (size : Nat)
    (left : Expr) : (chain pick join p size left).Even := by
  induction size generalizing left with
  | zero => exact even_pure left
  | succ size ih =>
      refine even_of_peek fun c => ?_
      cases picked : pick c.peek.kind with
      | none => exact even_pure left c
      | some op =>
          exact climbs_next_bind (plain picked) fun _ => operand.bind fun right => ih _

/-- A level that reads operands of the next one and its operators between them. -/
theorem level_even {γ : Type} {pick : TokenKind → Option γ} {join : Expr → Token → γ → Expr → Expr}
    (plain : ∀ {kind op}, pick kind = some op → kind.openBehind 0 = some 0) (size : Nat) :
    (p >>= chain pick join p size).Even :=
  operand.bind (chain_even operand plain size)

theorem arguments_even (size : Nat) (before : List Expr) : (arguments p size before).Even := by
  induction size generalizing before with
  | zero => exact even_pure before
  | succ size ih =>
      have later : Even (do
          let value ← p
          if ← accept .comma then arguments p size (before ++ [value])
          else pure (before ++ [value])) :=
        operand.bind fun value => (even_accept rfl).bind fun _ => .ite (ih _) (even_pure _)
      exact .ite (even_peek.bind fun token => (even_note _ token).bind fun _ => later) later

theorem finishCall_even (size : Nat) (callee : Expr) (line : Nat) :
    (finishCall p size callee line).Even := by
  refine (even_at _).bind fun closed => ?_
  have later : ∀ values, Even (do
      expect .rightParen .parenAfterArguments
      pure (Expr.call callee values line)) :=
    fun values => (even_expect rfl _).bind fun _ => even_pure _
  exact .ite ((even_pure []).bind later) ((arguments_even operand size []).bind later)

theorem finishSlice_even (target : Expr) (first : Option Expr) (line : Nat) :
    (finishSlice p target first line).Even := by
  refine (even_at _).bind fun closed => ?_
  have later : ∀ last : Option Expr, Even (do
      expect .rightBracket .bracketAfterSlice
      pure (Expr.slice target first last line)) :=
    fun last => (even_expect rfl _).bind fun _ => even_pure _
  exact .ite ((even_pure none).bind later) ((operand.map some).bind later)

theorem finishAccess_even (target : Expr) (line : Nat) : (finishAccess p target line).Even := by
  refine (even_accept rfl).bind fun colon => ?_
  refine .ite (finishSlice_even operand target none line) (operand.bind fun first => ?_)
  refine (even_accept rfl).bind fun colon => ?_
  refine .ite (finishSlice_even operand target (some first) line) ?_
  exact (even_expect rfl _).bind fun _ => even_pure _

theorem accesses_even (size passes : Nat) (target : Expr) :
    (accesses p size passes target).Even := by
  induction passes generalizing target with
  | zero => exact even_pure target
  | succ passes ih =>
      refine even_of_peek fun c => ?_
      generalize found : c.peek.kind = kind
      split
      · exact climbs_next_bind (found ▸ rfl) fun _ =>
          (finishCall_even operand size target _).bind ih
      · exact climbs_next_bind (found ▸ rfl) fun _ =>
          (even_identifier _).bind fun (name, line) => ih _
      · exact climbs_next_bind (found ▸ rfl) fun _ =>
          (finishAccess_even operand target _).bind ih
      · exact even_pure target c

theorem elements_even (size : Nat) (before : List Expr) : (elements p size before).Even := by
  induction size generalizing before with
  | zero => exact even_pure before
  | succ size ih =>
      refine (even_at _).bind fun closed => .ite (even_pure before) ?_
      refine operand.bind fun value => (even_accept rfl).bind fun _ => ?_
      exact .ite (ih _) (even_pure _)

end Loops

theorem finishAssign_even (target : Expr) (equals : Token) (value : Expr) :
    (finishAssign target equals value).Even := by
  cases target with
  | var name line => exact even_pure _
  | _ => exact (even_note _ equals).bind fun _ => even_pure _

theorem finishStep_even (target : Expr) (token : Token) (step : Step) :
    (finishStep target token step).Even := by
  cases target with
  | var name line => exact even_pure _
  | _ => exact (even_note _ token).bind fun _ => even_pure _

theorem openBehind_binary {kind : TokenKind} {op : BinaryOp} (found : kind = .symbol op.symbol) :
    kind.openBehind 0 = some 0 := by
  subst found
  cases op <;> rfl

mutual

/-- The tokens read for an expression are balanced, however the reading ends. -/
theorem expression_even (size : Nat) : ∀ room, (expression size room).Even
  | 0 => even_tooDeep
  | room + 1 => assignment_even size room

theorem assignment_even (size : Nat) : ∀ room, (assignment size room).Even
  | 0 => even_tooDeep
  | room + 1 => by
      refine (disjunction_even size room).bind fun target => even_of_peek fun c => ?_
      generalize found : c.peek.kind = kind
      split
      · exact climbs_next_bind (found ▸ rfl) fun _ =>
          (assignment_even size room).bind (finishAssign_even target _)
      · cases picked : pickStep kind with
        | none => exact even_pure target c
        | some step =>
            have plain : kind.openBehind 0 = some 0 := by
              rw [pickStep_iff.mp picked]
              cases step <;> rfl
            exact climbs_next_bind (found ▸ plain) fun _ => finishStep_even target _ step

theorem disjunction_even (size : Nat) : ∀ room, (disjunction size room).Even
  | 0 => even_tooDeep
  | room + 1 => by
      refine level_even (conjunction_even size room) (fun picked => ?_) size
      rw [(pickOr_iff.mp picked).1]
      rfl

theorem conjunction_even (size : Nat) : ∀ room, (conjunction size room).Even
  | 0 => even_tooDeep
  | room + 1 => by
      refine level_even (equality_even size room) (fun picked => ?_) size
      rw [(pickAnd_iff.mp picked).1]
      rfl

theorem equality_even (size : Nat) : ∀ room, (equality size room).Even
  | 0 | 1 => even_tooDeep
  | room + 2 => level_even (comparison_even size room)
      (fun picked => openBehind_binary (pickEquality_iff.mp picked).1) size

theorem comparison_even (size : Nat) : ∀ room, (comparison size room).Even
  | 0 | 1 => even_tooDeep
  | room + 2 => level_even (term_even size room)
      (fun picked => openBehind_binary (pickComparison_iff.mp picked).1) size

theorem term_even (size : Nat) : ∀ room, (term size room).Even
  | 0 | 1 => even_tooDeep
  | room + 2 => level_even (factor_even size room)
      (fun picked => openBehind_binary (pickTerm_iff.mp picked).1) size

theorem factor_even (size : Nat) : ∀ room, (factor size room).Even
  | 0 | 1 => even_tooDeep
  | room + 2 => level_even (unary_even size room)
      (fun picked => openBehind_binary (pickFactor_iff.mp picked).1) size

theorem unary_even (size : Nat) : ∀ room, (unary size room).Even
  | 0 => even_tooDeep
  | room + 1 => by
      refine even_of_peek fun c => ?_
      cases picked : pickUnary c.peek.kind with
      | none => exact call_even size room c
      | some op =>
          have plain : c.peek.kind.openBehind 0 = some 0 := by
            rw [pickUnary_iff.mp picked]
            cases op <;> rfl
          exact climbs_next_bind plain fun _ =>
            (unary_even size room).bind fun right => even_pure _

theorem call_even (size : Nat) : ∀ room, (call size room).Even
  | 0 => even_tooDeep
  | room + 1 => (primary_even size room).bind (accesses_even (bracketed_even size room) size size)

theorem bracketed_even (size : Nat) : ∀ room, (bracketed size room).Even
  | 0 => even_tooDeep
  | room + 1 => expression_even size room

theorem primary_even (size : Nat) : ∀ room, (primary size room).Even
  | 0 => even_tooDeep
  | room + 1 => by
      refine even_of_peek fun c => ?_
      generalize found : c.peek.kind = kind
      have constant : ∀ {tree : Expr}, kind.openBehind 0 = some 0 →
          c.Climbs 0 0 ((next >>= fun _ => pure tree : Parse Expr).after c) :=
        fun plain => climbs_next_bind (found ▸ plain) fun _ => even_pure _
      split
      · exact constant rfl
      · exact constant rfl
      · exact constant rfl
      · exact constant rfl
      · exact constant rfl
      · exact constant rfl
      · exact climbs_next_bind (found ▸ rfl) fun _ => (expression_even size room).bind fun inner =>
          (even_expect rfl _).bind fun _ => even_pure _
      · exact climbs_next_bind (found ▸ rfl) fun _ =>
          (elements_even (expression_even size room) size []).bind fun values =>
            (even_expect rfl _).bind fun _ => even_pure _
      · exact even_fail _ c

end

/-! ## Simple statements and heads -/

theorem varDecl_even (size line : Nat) : ∀ room, (varDecl size line room).Even
  | 0 => even_tooDeep
  | room + 1 => by
      refine (even_identifier _).bind fun (name, _) => (even_accept rfl).bind fun given => ?_
      have later : ∀ initial, Even (do
          expect .semicolon .semicolonAfterDeclaration
          pure (Stmt.varDecl name initial line)) :=
        fun initial => (even_expect rfl _).bind fun _ => even_pure _
      exact .ite (((expression_even size room).map some).bind later)
        ((even_pure none).bind later)

theorem expressionStmt_even (size : Nat) : ∀ room, (expressionStmt size room).Even
  | 0 => even_tooDeep
  | room + 1 => (expression_even size room).bind fun _ =>
      (even_expect rfl _).bind fun _ => even_pure _

theorem printStmt_even {expr : Parse Expr} (even : expr.Even) (line : Nat) :
    (printStmt expr line).Even :=
  even.bind fun _ => (even_expect rfl _).bind fun _ => even_pure _

theorem returnStmt_even {expr : Parse Expr} (even : expr.Even) (line : Nat) :
    (returnStmt expr line).Even := by
  refine (even_at _).bind fun closed => ?_
  have later : ∀ value, Even (do
      expect .semicolon .semicolonAfterReturn
      pure (Stmt.returnValue value line)) :=
    fun value => (even_expect rfl _).bind fun _ => even_pure _
  exact .ite ((even_pure none).bind later) ((even.map some).bind later)

end Parse

end TernLang
