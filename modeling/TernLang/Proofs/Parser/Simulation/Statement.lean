import TernLang.Proofs.Parser.Simulation.Expression

/-! # Comparing two parses of a program

**Every parse agrees with itself** under any simulation (`program_agrees`), by
induction on the room. A statement agrees because its expressions and inner
statements do.
-/

namespace TernLang.Parse

variable {S : Simulation} {extra : Nat}

/-! ## Simple statements and clauses -/

theorem varDecl_agrees (allows : S.Allows extra) (size line room : Nat) :
    Agrees S (Stmt.mapLines S.lines) (varDecl size line room)
      (varDecl size (S.lines line) (extra + room)) := by
  cases room with
  | zero => exact allows.tooDeep (by rintro rfl; rfl)
  | succ room =>
      refine (identifier_agrees _).bind fun named => ?_
      obtain ⟨name, nameLine⟩ := named
      refine (accept_agrees _).bind fun given => ?_
      have later : ∀ initial : Option Expr, Agrees S (Stmt.mapLines S.lines)
          (do
            expect .semicolon .semicolonAfterDeclaration
            pure (.varDecl name initial line))
          (do
            expect .semicolon .semicolonAfterDeclaration
            pure (.varDecl name (initial.map (Expr.mapLines S.lines)) (S.lines line))) := by
        intro initial
        exact (expect_agrees _ _).bind fun _ => .pure_of_eq rfl
      refine .ite ?_ (.bind (.pure none) later)
      exact .bind ((expression_agrees allows size room).map fun _ => rfl) later

theorem expressionStmt_agrees (allows : S.Allows extra) (size room : Nat) :
    Agrees S (Stmt.mapLines S.lines) (expressionStmt size room)
      (expressionStmt size (extra + room)) := by
  cases room with
  | zero => exact allows.tooDeep (by rintro rfl; rfl)
  | succ room =>
      refine (expression_agrees allows size room).bind fun expr => ?_
      exact (expect_agrees _ _).bind fun _ => .pure_of_eq (by simp [Stmt.mapLines])

section Clauses

variable {p q : Parse Expr} {r s : Parse Stmt}

theorem printStmt_agrees (expr : Agrees S (Expr.mapLines S.lines) p q) (line : Nat) :
    Agrees S (Stmt.mapLines S.lines) (printStmt p line) (printStmt q (S.lines line)) :=
  expr.bind fun _ => (expect_agrees _ _).bind fun _ => .pure_of_eq rfl

theorem returnStmt_agrees (expr : Agrees S (Expr.mapLines S.lines) p q) (line : Nat) :
    Agrees S (Stmt.mapLines S.lines) (returnStmt p line) (returnStmt q (S.lines line)) := by
  unfold returnStmt
  refine (at_agrees _).bind fun closed => ?_
  have later : ∀ value : Option Expr, Agrees S (Stmt.mapLines S.lines)
      (do
        expect .semicolon .semicolonAfterReturn
        pure (.returnValue value line))
      (do
        expect .semicolon .semicolonAfterReturn
        pure (.returnValue (value.map (Expr.mapLines S.lines)) (S.lines line))) := by
    intro value
    exact (expect_agrees _ _).bind fun _ => .pure_of_eq rfl
  exact .ite (.bind (.pure none) later) (.bind (expr.map fun _ => rfl) later)

theorem ifStmt_agrees (expr : Agrees S (Expr.mapLines S.lines) p q)
    (branch : Agrees S (Stmt.mapLines S.lines) r s) (line : Nat) :
    Agrees S (Stmt.mapLines S.lines) (ifStmt p r line) (ifStmt q s (S.lines line)) := by
  unfold ifStmt
  refine (expect_agrees _ _).bind fun _ => expr.bind fun condition => ?_
  refine (expect_agrees _ _).bind fun _ => branch.bind fun thenBranch => ?_
  refine peek_agrees.bind fun token => ?_
  rw [Token.mapLine_kind]
  split
  · exact next_agrees.bind fun _ => branch.bind fun elseBranch => .pure_of_eq rfl
  · exact .pure_of_eq rfl

theorem whileStmt_agrees (expr : Agrees S (Expr.mapLines S.lines) p q)
    (body : Agrees S (Stmt.mapLines S.lines) r s) (line : Nat) :
    Agrees S (Stmt.mapLines S.lines) (whileStmt p r line) (whileStmt q s (S.lines line)) := by
  unfold whileStmt
  refine (expect_agrees _ _).bind fun _ => expr.bind fun condition => ?_
  exact (expect_agrees _ _).bind fun _ => body.bind fun _ => .pure_of_eq rfl

theorem forCondition_agrees (expr : Agrees S (Expr.mapLines S.lines) p q) :
    Agrees S (Expr.mapLines S.lines) (forCondition p) (forCondition q) := by
  unfold forCondition
  refine peek_agrees.bind fun token => ?_
  rw [Token.mapLine_kind]
  split
  · exact .pure_of_eq rfl
  · exact expr

theorem forInitial_agrees (allows : S.Allows extra) (size room : Nat) :
    Agrees S (Option.map (Stmt.mapLines S.lines)) (forInitial size room)
      (forInitial size (extra + room)) := by
  unfold forInitial
  refine peek_agrees.bind fun token => ?_
  rw [Token.mapLine_kind]
  split
  · exact next_agrees.bind fun _ => .pure none
  · exact next_agrees.bind fun _ => (varDecl_agrees allows size token.line room).map fun _ => rfl
  · exact (expressionStmt_agrees allows size room).map fun _ => rfl

theorem forStmt_agrees (allows : S.Allows extra) (size room : Nat)
    (body : Agrees S (Stmt.mapLines S.lines) r s) (line : Nat) :
    Agrees S (Stmt.mapLines S.lines) (forStmt size room r line)
      (forStmt size (extra + room) s (S.lines line)) := by
  unfold forStmt
  have expr := expression_agrees allows size room
  refine (expect_agrees _ _).bind fun _ => (forInitial_agrees allows size room).bind fun initial => ?_
  refine (forCondition_agrees expr).bind fun condition => (expect_agrees _ _).bind fun _ => ?_
  refine (at_agrees _).bind fun closed => ?_
  have later : ∀ advance : Option Expr, Agrees S (Stmt.mapLines S.lines)
      (do
        expect .rightParen .parenAfterClauses
        pure (.forLoop initial condition advance (← r) line))
      (do
        expect .rightParen .parenAfterClauses
        pure (.forLoop (initial.map (Stmt.mapLines S.lines)) (condition.mapLines S.lines)
          (advance.map (Expr.mapLines S.lines)) (← s) (S.lines line))) := by
    intro advance
    refine (expect_agrees _ _).bind fun _ => body.bind fun stmt => ?_
    exact .pure_of_eq (Stmt.mapLines_forLoop _ _ _ _ _ _).symm
  exact .ite (.bind (.pure none) later) (.bind (expr.map fun _ => rfl) later)

end Clauses

/-! ## Functions and blocks -/

theorem parameters_agrees (size : Nat) (before : List String) :
    Agrees S id (parameters size before) (parameters size before) := by
  induction size generalizing before with
  | zero => exact .pure before
  | succ size ih =>
      have later : Agrees S id
          (do
            let named ← identifier .parameterName
            if ← accept .comma then parameters size (before ++ [named.1])
            else pure (before ++ [named.1]))
          (do
            let named ← identifier .parameterName
            if ← accept .comma then parameters size (before ++ [named.1])
            else pure (before ++ [named.1])) := by
        refine (identifier_agrees _).bind fun named => ?_
        exact (accept_agrees .comma).bind fun more => .ite (ih _) (.pure _)
      rw [parameters]
      exact .ite (peek_agrees.bind fun token => (note_agrees _ token).bind fun _ => later) later

theorem functionHead_agrees (size : Nat) :
    Agrees S id (functionHead size) (functionHead size) := by
  unfold functionHead
  refine (identifier_agrees _).bind fun named => (expect_agrees _ _).bind fun _ => ?_
  refine (at_agrees _).bind fun closed => ?_
  have later : ∀ params : List String, Agrees S id
      (do
        expect .rightParen .parenAfterParameters
        expect .leftBrace .braceBeforeBody
        pure (named.1, params))
      (do
        expect .rightParen .parenAfterParameters
        expect .leftBrace .braceBeforeBody
        pure (named.1, params)) := by
    intro params
    exact (expect_agrees _ _).bind fun _ => (expect_agrees _ _).bind fun _ => .pure _
  exact .ite (.bind (.pure []) later) (.bind (parameters_agrees size []) later)

theorem declarations_agrees {p q : Parse (Option Stmt)}
    (decl : Agrees S (Option.map (Stmt.mapLines S.lines)) p q) (inBlock : Bool) (size : Nat) :
    Agrees S (List.map (Stmt.mapLines S.lines)) (declarations inBlock p size)
      (declarations inBlock q size) := by
  induction size with
  | zero => exact .pure []
  | succ size ih =>
      refine peek_agrees.bind fun token => ?_
      rw [Token.mapLine_kind]
      refine .ite (.pure []) (decl.bind fun stmt => ih.bind fun others => ?_)
      exact .pure_of_eq (by cases stmt <;> simp)

mutual

theorem declaration_agrees (allows : S.Allows extra) (size : Nat) : ∀ room,
    Agrees S (Option.map (Stmt.mapLines S.lines)) (declaration size room)
      (declaration size (extra + room))
  | 0 | 1 | 2 | 3 | 4 => allows.tooDeep (by rintro rfl; rfl)
  | room + 5 => by
      refine recover_agrees (peek_agrees.bind fun token => ?_)
      rw [Token.mapLine_kind]
      split
      · exact next_agrees.bind fun _ => function_agrees allows size token.line (room + 4)
      · exact next_agrees.bind fun _ => varDecl_agrees allows size token.line (room + 4)
      · exact statement_agrees allows size (room + 4)

theorem function_agrees (allows : S.Allows extra) (size line : Nat) : ∀ room,
    Agrees S (Stmt.mapLines S.lines) (function size line room)
      (function size (S.lines line) (extra + room))
  | 0 => allows.tooDeep (by rintro rfl; rfl)
  | room + 1 => by
      refine (functionHead_agrees size).bind fun (name, params) => ?_
      exact (block_agrees allows size room).bind fun _ => .pure_of_eq (by simp [Stmt.mapLines])

theorem block_agrees (allows : S.Allows extra) (size : Nat) : ∀ room,
    Agrees S (List.map (Stmt.mapLines S.lines)) (block size room) (block size (extra + room))
  | 0 => allows.tooDeep (by rintro rfl; rfl)
  | room + 1 => by
      have body := declarations_agrees (declaration_agrees allows size room) true size
      exact (insideBlock_agrees body).bind fun _ => (expect_agrees _ _).bind fun _ => .pure _

theorem statement_agrees (allows : S.Allows extra) (size : Nat) : ∀ room,
    Agrees S (Stmt.mapLines S.lines) (statement size room) (statement size (extra + room))
  | 0 | 1 => allows.tooDeep (by rintro rfl; rfl)
  | room + 2 => by
      have expr := expression_agrees allows size room
      have inner := statement_agrees allows size room
      refine peek_agrees.bind fun token => ?_
      rw [Token.mapLine_kind]
      split
      · exact next_agrees.bind fun _ => forStmt_agrees allows size room inner token.line
      · exact next_agrees.bind fun _ => ifStmt_agrees expr inner token.line
      · exact next_agrees.bind fun _ => printStmt_agrees expr token.line
      · exact next_agrees.bind fun _ => returnStmt_agrees expr token.line
      · exact next_agrees.bind fun _ => whileStmt_agrees expr inner token.line
      · refine next_agrees.bind fun _ => (block_agrees allows size (room + 1)).bind fun body => ?_
        exact .pure_of_eq (by simp [Stmt.mapLines])
      · exact expressionStmt_agrees allows size (room + 1)

end

/-- **Two parses of a whole program agree** if they start on related cursors. -/
theorem program_agrees (allows : S.Allows extra) (size room : Nat) :
    Agrees S (List.map (Stmt.mapLines S.lines))
      (declarations false (declaration size room) size)
      (declarations false (declaration size (extra + room)) size) :=
  declarations_agrees (declaration_agrees allows size room) false size

end TernLang.Parse
