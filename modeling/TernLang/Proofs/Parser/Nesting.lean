import TernLang.Proofs.Parser.Heads

/-! # How deeply a parse nests

A tree can be nested more deeply than the room of its parse: a `for` loop takes two units
of room and stands for three levels, a block with a loop over a block. **The nesting of
parsed statements is at most three levels for two units of room, and at most the levels
that the tokens can open** (`parse_nesting`), with mistakes or without.

The invariant `Cursor.Nests` says both of a part of a parse. Each part has one case: what
is read in front of a statement opens its levels.
-/

namespace TernLang

/-- The levels of nesting that a token can open: one with a brace, a condition or a `while`
loop, three with a `for` loop. -/
def Token.levels (token : Token) : Nat :=
  match token.kind with
  | .symbol .leftBrace => 1
  | .keyword .ifKw => 1
  | .keyword .whileKw => 1
  | .keyword .forKw => 3
  | _ => 0

/-- The levels of nesting that tokens can open. -/
def Token.levelsAll : List Token → Nat
  | [] => 0
  | token :: rest => token.levels + levelsAll rest

theorem Token.levelsAll_append (tokens others : List Token) :
    levelsAll (tokens ++ others) = levelsAll tokens + levelsAll others := by
  induction tokens with
  | nil => exact (Nat.zero_add _).symm
  | cons token rest ih => rw [List.cons_append, levelsAll, levelsAll, ih, Nat.add_assoc]

namespace Cursor

/-- The levels of nesting that can still be opened. -/
def levels (cursor : Cursor) : Nat :=
  Token.levelsAll cursor.rest

/-- Between two cursors, statements of a depth are read with some room. Two units of room
are enough for three levels, and each level was opened by a token that was read. -/
structure Nests (room : Nat) (c d : Cursor) (depth : Nat) : Prop where
  fits : 2 * depth ≤ 3 * room
  opened : depth + d.levels ≤ c.levels

variable {room extra depth other : Nat} {c d e : Cursor}

/-- Tokens read are so many levels less ahead. -/
theorem Reads.levels {tokens : List Token} (reads : c.Reads tokens d) :
    c.levels = Token.levelsAll tokens + d.levels := by
  rw [Cursor.levels, reads.rest, Token.levelsAll_append, Cursor.levels]

theorem Moves.levels_le (moves : c.Moves d) : d.levels ≤ c.levels := by
  obtain ⟨read, parts⟩ := moves.suffix
  rw [levels, levels, parts, Token.levelsAll_append]
  exact Nat.le_add_left _ _

/-- Nothing is nested in what is only read. -/
theorem Moves.nests (moves : c.Moves d) : Nests room c d 0 :=
  ⟨Nat.zero_le _, by rw [Nat.zero_add]; exact moves.levels_le⟩

theorem Moves.nests_trans (moves : c.Moves d) (nests : Nests room d e depth) :
    Nests room c e depth :=
  ⟨nests.fits, Nat.le_trans nests.opened moves.levels_le⟩

theorem Nests.moves (nests : Nests room c d depth) (moves : d.Moves e) :
    Nests room c e depth :=
  ⟨nests.fits, Nat.le_trans (Nat.add_le_add_left moves.levels_le depth) nests.opened⟩

/-- Statements one behind the other are as deep as the deeper one. -/
theorem Nests.max (first : Nests room c d depth) (second : Nests room d e other) :
    Nests room c e (max depth other) := by
  obtain ⟨fits, opened⟩ := first
  obtain ⟨fits', opened'⟩ := second
  constructor <;> omega

/-- With more room a tree may nest deeper. -/
theorem Nests.more (nests : Nests room c d depth) (extra : Nat) :
    Nests (room + extra) c d depth := by
  obtain ⟨fits, opened⟩ := nests
  constructor <;> omega

/-- Tokens in front of statements open levels around them, with room for them. -/
theorem Nests.inside {tokens : List Token} (nests : Nests room d e depth)
    (reads : c.Reads tokens d) (levels : Token.levelsAll tokens = other)
    (enough : 2 * other ≤ 3 * extra) : Nests (room + extra) c e (depth + other) := by
  obtain ⟨fits, opened⟩ := nests
  have read := reads.levels
  constructor <;> omega

end Cursor

namespace Parse

open Cursor Grammar

/-! ## Statements without statements -/

/-- Whatever the step gives has the property. -/
def Gives {β : Type} (P : β → Prop) (step : Parse β) : Prop :=
  ∀ c b d, step c = .ok b d → P b

/-- No statement is nested in the statement. -/
def Flat (tree : Stmt) : Prop :=
  tree.nesting = 0

variable {size line room : Nat} {c d e : Cursor} {tree : Stmt} {p : Parse Expr}

/-- Variable declarations nest nothing. -/
theorem varDecl_flat : Gives Flat (varDecl size line room) := by
  intro c tree d run
  cases room with
  | zero => cases run
  | succ room =>
      obtain ⟨name, -, initial, -, -, -, -, -, rfl⟩ := of_varDecl_ok run
      rfl

theorem expressionStmt_flat : Gives Flat (expressionStmt size room) := by
  intro c tree d run
  cases room with
  | zero => cases run
  | succ room =>
      obtain ⟨value, -, -, -, rfl⟩ := of_expressionStmt_ok run
      rfl

theorem printStmt_flat : Gives Flat (printStmt p line) := by
  intro c tree d run
  obtain ⟨value, -, -, -, rfl⟩ := of_printStmt_ok run
  rfl

theorem returnStmt_flat : Gives Flat (returnStmt p line) := by
  intro c tree d run
  obtain ⟨given, -, -, -, rfl⟩ := of_returnStmt_ok run
  rfl

theorem forInitial_flat :
    Gives (fun initial => Stmt.nestingOption initial = 0) (forInitial size room) := by
  intro c initial d run
  obtain ⟨line, rfl, -⟩ | ⟨line, decl, rfl, -, parsed⟩ | ⟨stmt, rfl, parsed⟩ :=
    of_forInitial_ok run
  · rfl
  · exact varDecl_flat _ _ _ parsed
  · exact expressionStmt_flat _ _ _ parsed

/-- A step that only reads, and gives a flat statement. -/
theorem Gives.nests {step : Parse Stmt} (flat : Gives Flat step) (travels : step.Travels)
    (run : step c = .ok tree d) : Nests room c d tree.nesting := by
  rw [show tree.nesting = 0 from flat c tree d run]
  exact (travels.ok run).nests

/-! ## Statements with branches -/

section Branches

variable {branch : Parse Stmt} (travels : p.Travels)
  (nests : ∀ {c d tree}, branch c = .ok tree d → Nests room c d tree.nesting)
include travels nests

/-- A conditional is one level around the deeper of its branches. -/
theorem ifStmt_nests (run : ifStmt p branch line c = .ok tree d) :
    ∃ depth, Nests room c d depth ∧ tree.nesting = depth + 1 := by
  obtain ⟨value, thenBranch, e, e', head, thenRun, behind⟩ := of_ifStmt_ok run
  have first := ((condition_travels travels _ _).ok head).nests_trans (nests thenRun)
  obtain ⟨-, rfl, rfl⟩ | ⟨elseBranch, elseLine, -, elseRun, rfl⟩ := behind
  · exact ⟨_, first, by simp [Stmt.nesting, Stmt.nestingOption]⟩
  · exact ⟨_, first.max ((Cursor.Moves.read .here).nests_trans (nests elseRun)), rfl⟩

theorem whileStmt_nests (run : whileStmt p branch line c = .ok tree d) :
    ∃ depth, Nests room c d depth ∧ tree.nesting = depth + 1 := by
  obtain ⟨value, body, e, head, bodyRun, rfl⟩ := of_whileStmt_ok run
  exact ⟨_, ((condition_travels travels _ _).ok head).nests_trans (nests bodyRun), rfl⟩

end Branches

/-- The blocks and the while loop a for loop stands for are three levels around its body. -/
theorem nesting_forLoop {initial : Option Stmt} (flat : Stmt.nestingOption initial = 0)
    (condition : Expr) (advance : Option Expr) (body : Stmt) (line : Nat) :
    (Stmt.forLoop initial condition advance body line).nesting = body.nesting + 3 := by
  cases initial <;> cases advance <;>
    simp_all [Stmt.forLoop, Stmt.nesting, Stmt.nestingAll, Stmt.nestingOption]

/-- A for loop is three levels around its body. -/
theorem forStmt_nests {left : Nat} {branch : Parse Stmt}
    (nests : ∀ {c d tree}, branch c = .ok tree d → Nests room c d tree.nesting)
    (run : forStmt size left branch line c = .ok tree d) :
    ∃ depth, Nests room c d depth ∧ tree.nesting = depth + 3 := by
  obtain ⟨initial, value, advance, body, e, head, bodyRun, rfl⟩ := of_forStmt_ok run
  obtain ⟨e₁, e₂, -, -, -, -, first, -⟩ := of_forClauses_ok head
  have flat := forInitial_flat _ _ _ first
  have moves := (forClauses_travels size left).ok head
  exact ⟨_, moves.nests_trans (nests bodyRun), nesting_forLoop flat ..⟩

/-! ## Declarations -/

theorem recover_nests {step : Parse Stmt} (moves : c.Moves d)
    (nests : ∀ {tree}, step c = .ok tree d → Nests room c d tree.nesting) {result : Option Stmt}
    (run : recover step c = .ok result d) : Nests room c d (Stmt.nestingAll result.toList) := by
  obtain ⟨tree, rfl, parsed⟩ | ⟨rfl, -⟩ := of_recover_ok run
  · simpa [Stmt.nestingAll] using nests parsed
  · exact moves.nests

theorem nestingAll_append (trees others : List Stmt) :
    Stmt.nestingAll (trees ++ others) = max (Stmt.nestingAll trees) (Stmt.nestingAll others) := by
  induction trees with
  | nil => simp [Stmt.nestingAll]
  | cons tree rest ih => rw [List.cons_append, Stmt.nestingAll, Stmt.nestingAll, ih, Nat.max_assoc]

/-- A list nests as deep as its deepest declaration. -/
theorem declarations_nests {decl : Parse (Option Stmt)}
    (nests : ∀ {c d result}, decl c = .ok result d →
      Nests room c d (Stmt.nestingAll result.toList))
    (inBlock : Bool) (passes : Nat) {trees : List Stmt}
    (run : declarations inBlock decl passes c = .ok trees d) :
    Nests room c d (Stmt.nestingAll trees) := by
  induction passes generalizing c trees with
  | zero =>
      obtain ⟨rfl, rfl⟩ := of_pure_ok run
      exact Cursor.Moves.here.nests
  | succ passes ih =>
      obtain ⟨-, rfl, rfl⟩ | ⟨-, result, others, e, first, rest, rfl⟩ := of_declarations_ok run
      · exact Cursor.Moves.here.nests
      · rw [nestingAll_append]
        exact (nests first).max (ih rest)

mutual

/-- A declaration nests no deeper than its tokens and the room allow. -/
theorem declaration_nests (size : Nat) {c d : Cursor} {result : Option Stmt} : ∀ room,
    declaration size room c = .ok result d → Nests room c d (Stmt.nestingAll result.toList)
  | 0, run | 1, run | 2, run | 3, run | 4, run => by cases run
  | room + 5, run => by
      have moves := (declaration_travels size (room + 5)).ok run
      refine recover_nests moves (fun {tree} step => ?_) run
      have first : c.Moves c.advance := .read .here
      replace step := of_peek_bind step
      generalize c.peek.kind = kind at step
      split at step
      · exact first.nests_trans ((function_nests size (room + 4) (of_next_bind step)).more 1)
      · have travels := varDecl_travels size c.peek.line (room + 4)
        exact first.nests_trans (varDecl_flat.nests travels (of_next_bind step))
      · exact (statement_nests size (room + 4) step).more 1

theorem function_nests (size : Nat) {line : Nat} {c d : Cursor} {tree : Stmt} : ∀ room,
    function size line room c = .ok tree d → Nests room c d tree.nesting
  | 0, run => by cases run
  | room + 1, run => by
      obtain ⟨name, params, body, e₁, headed, inner, rfl⟩ := of_function_ok run
      obtain ⟨nameLine, e₃, e₄, named, moves, brace⟩ := functionHead_reads headed
      obtain ⟨braceLine, opened⟩ := of_expect_ok brace
      have body := (block_nests size room inner).inside opened rfl (by decide : 2 * 1 ≤ 3 * 1)
      exact (moves.nests_trans body).inside named rfl (Nat.zero_le (3 * 0))

theorem block_nests (size : Nat) {c d : Cursor} {trees : List Stmt} : ∀ room,
    block size room c = .ok trees d → Nests room c d (Stmt.nestingAll trees)
  | 0, run => by cases run
  | room + 1, run => by
      obtain ⟨e, inside, closed⟩ := of_block_ok run
      have found := declarations_nests (fun run => declaration_nests size room run) true size
        inside
      have found : Nests room c { e with openBlocks := e.openBlocks - 1 } _ :=
        ⟨found.fits, found.opened⟩
      exact (found.moves (moves_expect closed)).more 1

theorem statement_nests (size : Nat) {c d : Cursor} {tree : Stmt} : ∀ room,
    statement size room c = .ok tree d → Nests room c d tree.nesting
  | 0, run | 1, run => by cases run
  | room + 2, run => by
      have travels := expression_travels size room
      have first : c.Moves c.advance := .read .here
      replace run := of_peek_bind run
      generalize found : c.peek.kind = kind at run
      split at run
      · obtain ⟨depth, inner, flat⟩ := forStmt_nests (statement_nests size room) (of_next_bind run)
        rw [flat]
        exact inner.inside (reads_kind found (by simp)) rfl (by decide)
      · obtain ⟨depth, inner, flat⟩ :=
          ifStmt_nests travels (statement_nests size room) (of_next_bind run)
        rw [flat]
        exact inner.inside (reads_kind found (by simp)) rfl (by decide)
      · exact first.nests_trans (printStmt_flat.nests
          (printStmt_travels travels _) (of_next_bind run))
      · exact first.nests_trans (returnStmt_flat.nests
          (returnStmt_travels travels _) (of_next_bind run))
      · obtain ⟨depth, inner, flat⟩ :=
          whileStmt_nests travels (statement_nests size room) (of_next_bind run)
        rw [flat]
        exact inner.inside (reads_kind found (by simp)) rfl (by decide)
      · obtain ⟨body, e, parsed, run⟩ := of_bind_ok (of_next_bind run)
        obtain ⟨rfl, rfl⟩ := of_pure_ok run
        have inner := block_nests size (room + 1) parsed
        exact inner.inside (reads_kind found (by simp)) rfl (by decide : 2 * 1 ≤ 3 * 1)
      · have travels := expressionStmt_travels size (room + 1)
        exact expressionStmt_flat.nests travels run

end

end Parse

/-- **The statements of a parse are nested at most three levels for two units of room**, and
at most as deeply as the tokens can open levels. -/
theorem parse_nesting (room : Nat) (tokens : List Token) :
    2 * Stmt.nestingAll (parse room tokens).statements ≤ 3 * room ∧
      Stmt.nestingAll (parse room tokens).statements ≤ Token.levelsAll tokens := by
  cases run : Parse.declarations false (Parse.declaration tokens.length room) tokens.length
      (Cursor.start tokens) with
  | error stop d =>
      have none : (parse room tokens).statements = [] := by simp only [parse, run]
      rw [none]
      exact ⟨Nat.zero_le _, Nat.zero_le _⟩
  | ok trees d =>
      rw [Parse.parse_of_ok run]
      obtain ⟨fits, opened⟩ := Parse.declarations_nests
        (fun run => Parse.declaration_nests tokens.length room run) false tokens.length run
      exact ⟨fits, Nat.le_trans (Nat.le_add_right _ _) opened⟩

end TernLang
