import TernLang.Proofs.Parser.Reading

/-! # What a successful parse has run

A parser that succeeds has run its steps one after the other, and each of them has
succeeded. For each parser of statements this is said here once, with the cursors between
the steps (`of_ifStmt_ok` and its sisters), so that an argument about the statements of a
parse does not have to open the parsers.

**An `if`, a `while` and a `for` are a head in parentheses with statements behind it**:
`condition` and `forClauses` are the parsers of the heads.
-/

namespace TernLang.Parse

open Grammar (sym word)

variable {c d : Cursor}

/-! ## Alternatives -/

/-- Two steps of which `symbol` shows the one to take, and what `rest` makes of it. -/
theorem of_alternative_ok {α β : Type} {symbol : Symbol} {p q : Parse α} {rest : α → Parse β}
    {b : β} (run : (do if ← at? symbol then p >>= rest else q >>= rest) c = .ok b d) :
    ∃ a e, (p c = .ok a e ∨ q c = .ok a e) ∧ rest a e = .ok b d := by
  replace run := of_at_bind run
  split at run
  · obtain ⟨a, e, first, run⟩ := of_bind_ok run
    exact ⟨a, e, .inl first, run⟩
  · obtain ⟨a, e, first, run⟩ := of_bind_ok run
    exact ⟨a, e, .inr first, run⟩

/-- Between the two cursors there is an expression, or nothing where none is given. -/
def Optionally (expr : Parse Expr) (c : Cursor) (given : Option Expr) (d : Cursor) : Prop :=
  (given = none ∧ d = c) ∨ ∃ value, given = some value ∧ expr c = .ok value d

/-- A part left out in front of its symbol is missing; otherwise it has been read. -/
theorem of_optional_ok {β : Type} {expr : Parse Expr} {symbol : Symbol}
    {rest : Option Expr → Parse β} {b : β}
    (run : (do if ← at? symbol then pure none >>= rest else some <$> expr >>= rest) c = .ok b d) :
    ∃ given e, Optionally expr c given e ∧ rest given e = .ok b d := by
  obtain ⟨given, e, missing | present, run⟩ := of_alternative_ok run
  · obtain ⟨rfl, rfl⟩ := of_pure_ok missing
    exact ⟨none, c, .inl ⟨rfl, rfl⟩, run⟩
  · obtain ⟨value, rfl, parsed⟩ := of_map_ok present
    exact ⟨some value, e, .inr ⟨value, rfl, parsed⟩, run⟩

theorem Optionally.moves {expr : Parse Expr} {given : Option Expr}
    (optional : Optionally expr c given d) (travels : expr.Travels) : c.Moves d := by
  obtain ⟨-, rfl⟩ | ⟨value, -, parsed⟩ := optional
  · exact .here
  · exact travels.ok parsed

/-! ## Heads of statements -/

/-- The condition of an `if` or a `while`, in its parentheses. -/
def condition (expr : Parse Expr) (opening closing : Expectation) : Parse Expr := do
  expect .leftParen opening
  let value ← expr
  expect .rightParen closing
  pure value

/-- The clauses of a `for`, in their parentheses. -/
def forClauses (size room : Nat) : Parse (Option Stmt × Expr × Option Expr) := do
  expect .leftParen .parenAfterFor
  let initial ← forInitial size room
  let condition ← forCondition (expression size room)
  expect .semicolon .semicolonAfterCondition
  let advance ← if ← at? .rightParen then pure none else some <$> expression size room
  expect .rightParen .parenAfterClauses
  pure (initial, condition, advance)

section Heads

variable {expr : Parse Expr} {branch : Parse Stmt} {line size room : Nat} {tree : Stmt}

theorem condition_bind {α : Type} {opening closing : Expectation} (f : Expr → Parse α) :
    (condition expr opening closing >>= f) = (do
      expect .leftParen opening
      let value ← expr
      expect .rightParen closing
      f value) := by
  simp only [condition, bind_assoc, pure_bind]

theorem whileStmt_eq :
    whileStmt expr branch line = (do
      let value ← condition expr .parenAfterWhile .parenAfterWhileCondition
      let body ← branch
      pure (.whileLoop value body line)) :=
  (condition_bind _).symm

theorem ifStmt_eq :
    ifStmt expr branch line = (do
      let value ← condition expr .parenAfterIf .parenAfterIfCondition
      let thenBranch ← branch
      let token ← peek
      match token.kind with
      | .keyword .elseKw => do
          let _ ← next
          let elseBranch ← branch
          pure (.ifElse value thenBranch (some elseBranch) line)
      | _ => pure (.ifElse value thenBranch none line)) :=
  (condition_bind _).symm

theorem forStmt_eq :
    forStmt size room branch line = (do
      let clauses ← forClauses size room
      let body ← branch
      pure (.forLoop clauses.1 clauses.2.1 clauses.2.2 body line)) := by
  simp only [forStmt, forClauses, bind_assoc]
  refine bind_congr fun _ => bind_congr fun _ => bind_congr fun _ => bind_congr fun _ => ?_
  refine bind_congr fun closed => ?_
  cases closed <;> simp

theorem condition_travels (travels : expr.Travels) (opening closing : Expectation) :
    (condition expr opening closing).Travels :=
  (expect_travels _ _).bind fun _ => travels.bind fun _ =>
    (expect_travels _ _).bind fun _ => pure_travels _

/-- A condition read has its value between parentheses. -/
theorem of_condition_ok {opening closing : Expectation} {value : Expr}
    (run : condition expr opening closing c = .ok value d) :
    ∃ e₁ e₂, expect .leftParen opening c = .ok () e₁ ∧ expr e₁ = .ok value e₂ ∧
      expect .rightParen closing e₂ = .ok () d := by
  obtain ⟨_, e₁, opened, run⟩ := of_bind_ok run
  obtain ⟨_, e₂, parsed, run⟩ := of_bind_ok run
  obtain ⟨_, _, closed, run⟩ := of_bind_ok run
  obtain ⟨rfl, rfl⟩ := of_pure_ok run
  exact ⟨e₁, e₂, opened, parsed, closed⟩

theorem of_whileStmt_ok (run : whileStmt expr branch line c = .ok tree d) :
    ∃ value body e,
      condition expr .parenAfterWhile .parenAfterWhileCondition c = .ok value e ∧
        branch e = .ok body d ∧ tree = .whileLoop value body line := by
  rw [whileStmt_eq] at run
  obtain ⟨value, e, head, run⟩ := of_bind_ok run
  obtain ⟨body, _, inner, run⟩ := of_bind_ok run
  obtain ⟨rfl, rfl⟩ := of_pure_ok run
  exact ⟨value, body, e, head, inner, rfl⟩

/-- An `if` statement reads an `else` behind its first branch, or has seen that there is
none. -/
theorem of_ifStmt_ok (run : ifStmt expr branch line c = .ok tree d) :
    ∃ value thenBranch e e',
      condition expr .parenAfterIf .parenAfterIfCondition c = .ok value e ∧
        branch e = .ok thenBranch e' ∧
        ((e'.peek.kind ≠ .keyword .elseKw ∧ d = e' ∧ tree = .ifElse value thenBranch none line) ∨
          ∃ elseBranch elseLine, e'.Reads [word .elseKw elseLine] e'.advance ∧
            branch e'.advance = .ok elseBranch d ∧
            tree = .ifElse value thenBranch (some elseBranch) line) := by
  rw [ifStmt_eq] at run
  obtain ⟨value, e, head, run⟩ := of_bind_ok run
  obtain ⟨thenBranch, e', inner, run⟩ := of_bind_ok run
  refine ⟨value, thenBranch, e, e', head, inner, ?_⟩
  replace run := of_peek_bind run
  generalize found : e'.peek.kind = kind at run
  split at run
  · obtain ⟨elseBranch, _, other, run⟩ := of_bind_ok (of_next_bind run)
    obtain ⟨rfl, rfl⟩ := of_pure_ok run
    exact .inr ⟨elseBranch, _, reads_kind found (by simp), other, rfl⟩
  · rename_i other
    obtain ⟨rfl, rfl⟩ := of_pure_ok run
    exact .inl ⟨fun atElse => other atElse, rfl, rfl⟩

/-- The first clause of a `for` is empty, a variable declaration or an expression. -/
theorem of_forInitial_ok {initial : Option Stmt} (run : forInitial size room c = .ok initial d) :
    (∃ line, initial = none ∧ c.Reads [sym .semicolon line] d) ∨
      (∃ line decl, initial = some decl ∧ c.Reads [word .varKw line] c.advance ∧
        varDecl size line room c.advance = .ok decl d) ∨
      ∃ stmt, initial = some stmt ∧ expressionStmt size room c = .ok stmt d := by
  replace run := of_peek_bind run
  generalize found : c.peek.kind = kind at run
  split at run
  · replace run := of_next_bind run
    obtain ⟨rfl, rfl⟩ := of_pure_ok run
    exact .inl ⟨_, rfl, reads_kind found (by simp)⟩
  · obtain ⟨decl, rfl, parsed⟩ := of_map_ok (of_next_bind run)
    exact .inr (.inl ⟨_, decl, rfl, reads_kind found (by simp), parsed⟩)
  · obtain ⟨stmt, rfl, parsed⟩ := of_map_ok run
    exact .inr (.inr ⟨stmt, rfl, parsed⟩)

/-- The head of a for loop has three clauses, each of which may be missing. -/
theorem of_forClauses_ok {initial : Option Stmt} {value : Expr} {advance : Option Expr}
    (run : forClauses size room c = .ok (initial, value, advance) d) :
    ∃ e₁ e₂ e₃ e₄ e₅, expect .leftParen .parenAfterFor c = .ok () e₁ ∧
      forInitial size room e₁ = .ok initial e₂ ∧
      forCondition (expression size room) e₂ = .ok value e₃ ∧
      expect .semicolon .semicolonAfterCondition e₃ = .ok () e₄ ∧
      Optionally (expression size room) e₄ advance e₅ ∧
      expect .rightParen .parenAfterClauses e₅ = .ok () d := by
  obtain ⟨_, e₁, opened, run⟩ := of_bind_ok run
  obtain ⟨_, e₂, first, run⟩ := of_bind_ok run
  obtain ⟨_, e₃, test, run⟩ := of_bind_ok run
  obtain ⟨_, e₄, ended, run⟩ := of_bind_ok run
  obtain ⟨_, e₅, change, run⟩ := of_optional_ok run
  obtain ⟨_, _, closed, run⟩ := of_bind_ok run
  obtain ⟨same, rfl⟩ := of_pure_ok run
  cases same
  exact ⟨e₁, e₂, e₃, e₄, e₅, opened, first, test, ended, change, closed⟩

theorem forClauses_travels (size room : Nat) : (forClauses size room).Travels := by
  have travels := expression_travels size room
  refine (expect_travels _ _).bind fun _ => (forInitial_travels size room).bind fun initial => ?_
  refine (forCondition_travels travels).bind fun value => (expect_travels _ _).bind fun _ => ?_
  refine (at_travels _).bind fun missing => ?_
  have later : ∀ advance, Travels (do
      expect .rightParen .parenAfterClauses
      pure ((initial, value, advance) : Option Stmt × Expr × Option Expr)) :=
    fun advance => (expect_travels _ _).bind fun _ => pure_travels _
  cases missing with
  | true => exact (pure_travels none).bind later
  | false => exact (travels.map some).bind later

/-- A for loop read has its clauses and then a body. -/
theorem of_forStmt_ok (run : forStmt size room branch line c = .ok tree d) :
    ∃ initial value advance body e,
      forClauses size room c = .ok (initial, value, advance) e ∧ branch e = .ok body d ∧
        tree = .forLoop initial value advance body line := by
  rw [forStmt_eq] at run
  obtain ⟨⟨initial, value, advance⟩, e, head, run⟩ := of_bind_ok run
  obtain ⟨body, _, inner, run⟩ := of_bind_ok run
  obtain ⟨rfl, rfl⟩ := of_pure_ok run
  exact ⟨initial, value, advance, body, e, head, inner, rfl⟩

end Heads

/-! ## Simple statements -/

section Simple

variable {expr : Parse Expr} {line size room : Nat} {tree : Stmt}

/-- A variable declaration read has a name and, behind an equals sign, an expression. -/
theorem of_varDecl_ok (run : varDecl size line (room + 1) c = .ok tree d) :
    ∃ name nameLine initial e₁ e₂, identifier .variableName c = .ok (name, nameLine) e₁ ∧
      ((initial = none ∧ accept .equal e₁ = .ok false e₂) ∨
        ∃ value e, initial = some value ∧ accept .equal e₁ = .ok true e ∧
          expression size room e = .ok value e₂) ∧
      expect .semicolon .semicolonAfterDeclaration e₂ = .ok () d ∧
      tree = .varDecl name initial line := by
  obtain ⟨⟨name, nameLine⟩, e₁, named, run⟩ := of_bind_ok run
  obtain ⟨equals, e, accepted, run⟩ := of_bind_ok run
  cases equals with
  | false =>
      obtain ⟨_, _, missing, run⟩ := of_bind_ok run
      obtain ⟨rfl, rfl⟩ := of_pure_ok missing
      obtain ⟨_, _, close, run⟩ := of_bind_ok run
      obtain ⟨rfl, rfl⟩ := of_pure_ok run
      exact ⟨name, nameLine, none, e₁, e, named, .inl ⟨rfl, accepted⟩, close, rfl⟩
  | true =>
      obtain ⟨_, e₂, given, run⟩ := of_bind_ok run
      obtain ⟨value, rfl, parsed⟩ := of_map_ok given
      obtain ⟨_, _, close, run⟩ := of_bind_ok run
      obtain ⟨rfl, rfl⟩ := of_pure_ok run
      exact ⟨name, nameLine, some value, e₁, e₂, named, .inr ⟨value, e, rfl, accepted, parsed⟩,
        close, rfl⟩

theorem of_expressionStmt_ok (run : expressionStmt size (room + 1) c = .ok tree d) :
    ∃ value e, expression size room c = .ok value e ∧
      expect .semicolon .semicolonAfterExpression e = .ok () d ∧
      tree = .expression value value.line := by
  obtain ⟨value, e, parsed, run⟩ := of_bind_ok run
  obtain ⟨_, _, close, run⟩ := of_bind_ok run
  obtain ⟨rfl, rfl⟩ := of_pure_ok run
  exact ⟨value, e, parsed, close, rfl⟩

theorem of_printStmt_ok (run : printStmt expr line c = .ok tree d) :
    ∃ value e, expr c = .ok value e ∧ expect .semicolon .semicolonAfterPrint e = .ok () d ∧
      tree = .print value line := by
  obtain ⟨value, e, parsed, run⟩ := of_bind_ok run
  obtain ⟨_, _, close, run⟩ := of_bind_ok run
  obtain ⟨rfl, rfl⟩ := of_pure_ok run
  exact ⟨value, e, parsed, close, rfl⟩

/-- A return statement read has its semicolon, and a value in front of it or none. -/
theorem of_returnStmt_ok (run : returnStmt expr line c = .ok tree d) :
    ∃ given e, Optionally expr c given e ∧
      expect .semicolon .semicolonAfterReturn e = .ok () d ∧ tree = .returnValue given line := by
  obtain ⟨given, e, parsed, run⟩ := of_optional_ok run
  obtain ⟨_, _, close, run⟩ := of_bind_ok run
  obtain ⟨rfl, rfl⟩ := of_pure_ok run
  exact ⟨given, e, parsed, close, rfl⟩

end Simple

/-! ## Declarations -/

section Declarations

variable {size room line : Nat}

/-- The head of a function has its name and the parameters in parentheses. -/
theorem of_functionHead_ok {name : String} {params : List String}
    (run : functionHead size c = .ok (name, params) d) :
    ∃ nameLine e₁ e₂ e₃ e₄, identifier .functionName c = .ok (name, nameLine) e₁ ∧
      expect .leftParen .parenAfterFunctionName e₁ = .ok () e₂ ∧
      ((params = [] ∧ e₂ = e₃) ∨ parameters size [] e₂ = .ok params e₃) ∧
      expect .rightParen .parenAfterParameters e₃ = .ok () e₄ ∧
      expect .leftBrace .braceBeforeBody e₄ = .ok () d := by
  obtain ⟨⟨found, nameLine⟩, e₁, named, run⟩ := of_bind_ok run
  obtain ⟨_, e₂, opened, run⟩ := of_bind_ok run
  obtain ⟨given, e₃, read, run⟩ := of_alternative_ok run
  obtain ⟨_, e₄, closed, run⟩ := of_bind_ok run
  obtain ⟨_, _, brace, run⟩ := of_bind_ok run
  obtain ⟨same, rfl⟩ := of_pure_ok run
  cases same
  exact ⟨nameLine, e₁, e₂, e₃, e₄, named, opened, read.imp_left of_pure_ok, closed, brace⟩

/-- A function read has a head and then a block. -/
theorem of_function_ok {tree : Stmt} (run : function size line (room + 1) c = .ok tree d) :
    ∃ name params body e, functionHead size c = .ok (name, params) e ∧
      block size room e = .ok body d ∧ tree = .funDecl name params body line := by
  obtain ⟨⟨name, params⟩, e, head, run⟩ := of_bind_ok run
  obtain ⟨body, _, inner, run⟩ := of_bind_ok run
  obtain ⟨rfl, rfl⟩ := of_pure_ok run
  exact ⟨name, params, body, e, head, inner, rfl⟩

/-- The block is opened and closed without reading a token. -/
theorem of_block_ok {trees : List Stmt} (run : block size (room + 1) c = .ok trees d) :
    ∃ e, declarations true (declaration size room) size
        { c with openBlocks := c.openBlocks + 1 } = .ok trees e ∧
      expect .rightBrace .braceAfterBlock { e with openBlocks := e.openBlocks - 1 } = .ok () d := by
  obtain ⟨_, _, inner, run⟩ := of_bind_ok run
  obtain ⟨_, _, closed, run⟩ := of_bind_ok run
  obtain ⟨rfl, rfl⟩ := of_pure_ok run
  obtain ⟨e, inside, rfl⟩ := of_insideBlock_ok inner
  exact ⟨e, inside, closed⟩

/-- Declarations stop at the end of input, and in a block at its closing brace. -/
theorem of_declarations_ok {inBlock : Bool} {decl : Parse (Option Stmt)} {passes : Nat}
    {trees : List Stmt} (run : declarations inBlock decl (passes + 1) c = .ok trees d) :
    ((c.peek.kind = .endOfInput ∨ inBlock = true ∧ c.peek.kind = .symbol .rightBrace) ∧
        trees = [] ∧ c = d) ∨
      ((c.peek.kind ≠ .endOfInput ∧ (inBlock = true → c.peek.kind ≠ .symbol .rightBrace)) ∧
        ∃ result others e, decl c = .ok result e ∧
          declarations inBlock decl passes e = .ok others d ∧ trees = result.toList ++ others) := by
  replace run := of_peek_bind run
  split at run
  · rename_i stops
    obtain ⟨rfl, rfl⟩ := of_pure_ok run
    exact .inl ⟨by simpa using stops, rfl, rfl⟩
  · rename_i goes
    obtain ⟨result, e, first, run⟩ := of_bind_ok run
    obtain ⟨others, _, rest, run⟩ := of_bind_ok run
    obtain ⟨rfl, rfl⟩ := of_pure_ok run
    exact .inr ⟨by simpa using goes, result, others, e, first, rest, rfl⟩

end Declarations

end TernLang.Parse
