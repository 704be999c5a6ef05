import TernLang.Proofs.Parser.Completeness.Expression

/-! # Every program of the grammar is accepted

**A program of the grammar is parsed to its trees, and no mistake is reported**
(`parse_of_program`), unless it is reported as nested too deeply. It never is
if there are sixteen units of room for each token and twenty-one to start with.

An `if` without an `else` is complete only if no `else` follows, so the theorem
for statements looks at the next token where the statement is dangling.
-/

namespace TernLang

open Grammar

namespace Grammar

/-! ## How declarations start -/

/-- A declaration may start with the token: it ends no block and no program, and
it is no `else`. -/
structure Begins (kind : TokenKind) : Prop where
  notEnd : kind ≠ .endOfInput
  notBrace : kind ≠ .symbol .rightBrace
  notElse : kind ≠ .keyword .elseKw

/-- A statement may start with the token: it starts no function and no variable
either. -/
structure BeginsStatement (kind : TokenKind) : Prop extends Begins kind where
  notDef : kind ≠ .keyword .defKw
  notVar : kind ≠ .keyword .varKw

theorem Level.StartsWith.begins {level : Level} {kind : TokenKind}
    (starts : level.StartsWith kind) : BeginsStatement kind := by
  refine ⟨⟨?_, ?_, ?_⟩, ?_, ?_⟩ <;> rintro rfl <;> exact starts

theorem Statement.head {dangling : Bool} {tokens : List Token} {tree : Stmt}
    (phrase : Statement dangling tokens tree) :
    ∃ token others, tokens = token :: others ∧ BeginsStatement token.kind := by
  cases phrase with
  | expression inner =>
      obtain ⟨token, others, rfl, starts⟩ := inner.head
      exact ⟨token, _, rfl, starts.begins⟩
  | print => exact ⟨_, _, rfl, by refine ⟨⟨?_, ?_, ?_⟩, ?_, ?_⟩ <;> simp⟩
  | returnValue => exact ⟨_, _, rfl, by refine ⟨⟨?_, ?_, ?_⟩, ?_, ?_⟩ <;> simp⟩
  | block => exact ⟨_, _, rfl, by refine ⟨⟨?_, ?_, ?_⟩, ?_, ?_⟩ <;> simp⟩
  | ifThen => exact ⟨_, _, rfl, by refine ⟨⟨?_, ?_, ?_⟩, ?_, ?_⟩ <;> simp⟩
  | ifElse => exact ⟨_, _, rfl, by refine ⟨⟨?_, ?_, ?_⟩, ?_, ?_⟩ <;> simp⟩
  | whileLoop => exact ⟨_, _, rfl, by refine ⟨⟨?_, ?_, ?_⟩, ?_, ?_⟩ <;> simp⟩
  | forLoop => exact ⟨_, _, rfl, by refine ⟨⟨?_, ?_, ?_⟩, ?_, ?_⟩ <;> simp⟩

theorem Declaration.head {tokens : List Token} {tree : Stmt} (phrase : Declaration tokens tree) :
    ∃ token others, tokens = token :: others ∧ Begins token.kind := by
  cases phrase with
  | function => exact ⟨_, _, rfl, by constructor <;> simp⟩
  | varDecl => exact ⟨_, _, rfl, by constructor <;> simp⟩
  | statement inner =>
      obtain ⟨token, others, rfl, begins⟩ := inner.head
      exact ⟨token, others, rfl, begins.toBegins⟩

theorem Expression.part {tokens : List Token} {tree : Expr} (size room : Nat)
    (phrase : Expression .assignment tokens tree) (short : tokens.length ≤ size)
    (enough : 16 * tokens.length + 15 ≤ room) : Parse.Part (Parse.expression size room) tokens tree := by
  obtain ⟨room, rfl⟩ := Nat.exists_eq_add_of_le' (show 1 ≤ room by omega)
  exact ⟨phrase.head, phrase.parses size room short (by simp only [Level.cost]; omega)⟩

theorem Bound.clause {tokens : List Token} {value : Option Expr} (size room : Nat)
    (phrase : Bound tokens value) (short : tokens.length ≤ size)
    (enough : 16 * tokens.length + 15 ≤ room) :
    Parse.OptionalPart (Parse.expression size room) tokens value := by
  obtain ⟨room, rfl⟩ := Nat.exists_eq_add_of_le' (show 1 ≤ room by omega)
  exact phrase.part size room short (by omega)

end Grammar

namespace Parse

variable {p : Parse Expr}

/-! ## Clauses -/

theorem varDecl_accepts {tokens : List Token} {name : String} {initial : Option Expr}
    (size room line : Nat) (phrase : Variable tokens name initial) (short : tokens.length ≤ size)
    (enough : 16 * tokens.length ≤ room) :
    Accepts (varDecl size line room) (fun _ => True) tokens (.varDecl name initial line) := by
  intro c d reads _
  cases phrase with
  | plain =>
      simp only [List.length_cons] at enough
      obtain ⟨room, rfl⟩ := Nat.exists_eq_add_of_le' (show 1 ≤ room by omega)
      have rest := reads.advance (by simp)
      refine bind_of_ok (identifier_run reads) ?_
      refine bind_of_ok (accept_run_false (by simp [rest.peek_eq])) (bind_of_ok (by rfl) ?_)
      refine bind_of_ok (expect_run rest) ?_
      rw [(rest.advance (by simp)).eq_of_nil]
      rfl
  | initial value =>
      simp only [List.length_cons, List.length_append] at short enough
      obtain ⟨room, rfl⟩ := Nat.exists_eq_add_of_le' (show 1 ≤ room by omega)
      have rest := reads.advance (by simp)
      have part := value.part size room (by omega) (by omega)
      obtain ⟨e, parsed, behind⟩ := part.run (rest.advance (by simp)) rfl
      refine bind_of_ok (identifier_run reads) (bind_of_ok (accept_run_true rest) ?_)
      refine bind_of_ok (map_of_ok parsed) (bind_of_ok (expect_run behind) ?_)
      rw [(behind.advance (by simp)).eq_of_nil]
      rfl

theorem expressionStmt_accepts {tokens : List Token} {tree : Expr} {semicolon : Nat}
    (size room : Nat) (phrase : Expression .assignment tokens tree) (short : tokens.length ≤ size)
    (enough : 16 * tokens.length + 16 ≤ room) :
    Accepts (expressionStmt size room) (fun _ => True) (tokens ++ [sym .semicolon semicolon])
      (.expression tree tree.line) := by
  intro c d reads _
  obtain ⟨room, rfl⟩ := Nat.exists_eq_add_of_le' (show 1 ≤ room by omega)
  obtain ⟨e, parsed, behind⟩ := (phrase.part size room short (by omega)).run reads rfl
  refine bind_of_ok parsed (bind_of_ok (expect_run behind) ?_)
  rw [(behind.advance (by simp)).eq_of_nil]
  rfl

theorem forInitial_accepts {tokens : List Token} {initial : Option Stmt} (size room : Nat)
    (phrase : Initial tokens initial) (short : tokens.length ≤ size)
    (enough : 16 * tokens.length ≤ room) :
    Accepts (forInitial size room) (fun _ => True) tokens initial := by
  intro c d reads _
  cases phrase with
  | none =>
      refine peek_bind ?_
      rw [reads.peek_eq, ← (reads.advance (by simp)).eq_of_nil]
      rfl
  | @varDecl line _ _ _ decl =>
      simp only [List.length_cons] at short enough
      have declared := varDecl_accepts size room line decl (by omega) (by omega) _ _
        (reads.advance (by simp)) trivial
      refine peek_bind ?_
      rw [reads.peek_eq]
      exact next_bind (map_of_ok declared)
  | expression value =>
      simp only [List.length_append, List.length_singleton] at short enough
      have parsed := expressionStmt_accepts size room value (by omega) (by omega) c d reads trivial
      obtain ⟨token, others, rfl, starts⟩ := value.head
      refine peek_bind ?_
      rw [reads.peek_eq]
      generalize token.kind = kind at starts
      split
      · exact starts.elim
      · exact starts.elim
      · exact map_of_ok parsed

/-- The condition of a for statement, in front of its semicolon. -/
theorem forCondition_run {tokens others : List Token} {value : Option Expr} {semicolon : Nat}
    {c d : Cursor} (part : OptionalPart p tokens value)
    (reads : c.Reads (tokens ++ sym .semicolon semicolon :: others) d) :
    ∃ e, forCondition p c = .ok (value.getD (.literal (.bool true) semicolon)) e ∧
      e.Reads (sym .semicolon semicolon :: others) d := by
  cases part with
  | none =>
      refine ⟨c, peek_bind ?_, reads⟩
      rw [reads.peek_eq]
      rfl
  | some part =>
      obtain ⟨e, parsed, behind⟩ := part.run reads rfl
      refine ⟨e, peek_bind ?_, behind⟩
      have other : c.peek.kind ≠ .symbol .semicolon :=
        part.peek_ne reads (by simp [Level.StartsWith])
      generalize c.peek.kind = kind at other
      split
      · exact absurd rfl other
      · exact parsed

/-! ## Functions -/

theorem parameters_accepts {tokens : List Token} {names : List String}
    (phrase : Parameters tokens names) (passes : Nat) (bounded : tokens.length ≤ passes)
    (before : List String) (few : before.length + names.length ≤ maxArguments) :
    Accepts (parameters passes before) (· = .symbol .rightParen) tokens (before ++ names) := by
  induction phrase generalizing passes before with
  | last =>
      intro c d reads close
      simp only [List.length_singleton] at bounded few
      obtain ⟨passes, rfl⟩ := Nat.exists_eq_add_of_le' bounded
      rw [parameters, if_neg (by omega)]
      refine bind_of_ok (identifier_run reads) ?_
      rw [(reads.advance (by simp)).eq_of_nil]
      exact bind_of_ok (accept_run_false (by simp [close])) rfl
  | @more name line comma others names _ ih =>
      intro c d reads close
      simp only [List.length_cons] at bounded few
      obtain ⟨passes, rfl⟩ := Nat.exists_eq_add_of_le' (show 1 ≤ passes by omega)
      have rest := reads.advance (by simp)
      rw [parameters, if_neg (by omega)]
      refine bind_of_ok (identifier_run reads) (bind_of_ok (accept_run_true rest) ?_)
      have later := ih passes (by omega) (before ++ [name]) (by simp; omega) _ _
        (rest.advance (by simp)) close
      simpa using later

theorem functionHead_accepts {params : List Token} {name : String} {names : List String}
    {nameLine paren close brace : Nat} (size : Nat) (phrase : ParameterList params names)
    (short : params.length ≤ size) :
    Accepts (functionHead size) (fun _ => True)
      (ident name nameLine :: sym .leftParen paren ::
        (params ++ [sym .rightParen close, sym .leftBrace brace])) (name, names) := by
  intro c d reads _
  have opened := reads.advance (by simp)
  have inside := opened.advance (by simp)
  refine bind_of_ok (identifier_run reads) (bind_of_ok (expect_run opened) ?_)
  have finish : ∀ e : Cursor, e.Reads [sym .rightParen close, sym .leftBrace brace] d →
      (do
        expect .rightParen .parenAfterParameters
        expect .leftBrace .braceBeforeBody
        pure (name, names)) e = .ok (name, names) d := by
    intro e closing
    have body := closing.advance (by simp)
    refine bind_of_ok (expect_run closing) (bind_of_ok (expect_run body) ?_)
    rw [(body.advance (by simp)).eq_of_nil]
    rfl
  cases phrase with
  | none => exact bind_of_ok (at_run_true inside) (bind_of_ok (by rfl) (finish _ inside))
  | some given few =>
      obtain ⟨e, read, closing⟩ := inside.split
      have all := parameters_accepts given size short [] (by simpa using few) _ _ read
        (by rw [closing.peek_eq])
      have notClosed : c.advance.advance.peek.kind ≠ .symbol .rightParen := by
        cases given <;> simp [inside.peek_eq]
      exact bind_of_ok (at_run_false notClosed) (bind_of_ok all (finish e closing))

/-! ## Statements -/

/-- What may follow a statement. -/
def Follows (dangling : Bool) (kind : TokenKind) : Prop :=
  dangling = true → kind ≠ .keyword .elseKw

variable {branch : Parse Stmt} {line : Nat} {c d : Cursor}

theorem printStmt_run {tokens : List Token} {value : Expr} {semicolon : Nat}
    (part : Part p tokens value) (reads : c.Reads (tokens ++ [sym .semicolon semicolon]) d) :
    printStmt p line c = .ok (.print value line) d := by
  obtain ⟨e, parsed, behind⟩ := part.run reads rfl
  refine bind_of_ok parsed (bind_of_ok (expect_run behind) ?_)
  rw [(behind.advance (by simp)).eq_of_nil]
  rfl

theorem returnStmt_run {tokens : List Token} {value : Option Expr} {semicolon : Nat}
    (part : OptionalPart p tokens value)
    (reads : c.Reads (tokens ++ [sym .semicolon semicolon]) d) :
    returnStmt p line c = .ok (.returnValue value line) d := by
  refine optional_run part reads rfl (by simp [Level.StartsWith]) (fun e behind => ?_)
  refine bind_of_ok (expect_run behind) ?_
  rw [(behind.advance (by simp)).eq_of_nil]
  rfl

theorem whileStmt_run {tokens inner : List Token} {condition : Expr} {body : Stmt} {paren close : Nat}
    {dangling : Bool} (part : Part p tokens condition)
    (accepts : Accepts branch (Follows dangling) inner body)
    (reads : c.Reads (sym .leftParen paren :: (tokens ++ sym .rightParen close :: inner)) d)
    (follows : Follows dangling d.peek.kind) :
    whileStmt p branch line c = .ok (.whileLoop condition body line) d := by
  obtain ⟨e, parsed, closing⟩ := part.run (reads.advance (by simp)) rfl
  refine bind_of_ok (expect_run reads) (bind_of_ok parsed (bind_of_ok (expect_run closing) ?_))
  exact bind_of_ok (accepts _ _ (closing.advance (by simp)) follows) rfl

theorem ifStmt_run {tokens inner : List Token} {condition : Expr} {thenBranch : Stmt}
    {paren close : Nat} {dangling : Bool} (part : Part p tokens condition)
    (accepts : Accepts branch (Follows dangling) inner thenBranch)
    (reads : c.Reads (sym .leftParen paren :: (tokens ++ sym .rightParen close :: inner)) d)
    (noElse : d.peek.kind ≠ .keyword .elseKw) :
    ifStmt p branch line c = .ok (.ifElse condition thenBranch none line) d := by
  obtain ⟨e, parsed, closing⟩ := part.run (reads.advance (by simp)) rfl
  refine bind_of_ok (expect_run reads) (bind_of_ok parsed (bind_of_ok (expect_run closing) ?_))
  refine bind_of_ok (accepts _ _ (closing.advance (by simp)) (fun _ => noElse)) (peek_bind ?_)
  generalize d.peek.kind = kind at noElse
  split
  · exact absurd rfl noElse
  · rfl

theorem ifStmt_run_else {tokens inner other : List Token} {condition : Expr}
    {thenBranch elseBranch : Stmt} {paren close elseLine : Nat} {dangling : Bool}
    (part : Part p tokens condition) (accepts : Accepts branch (Follows false) inner thenBranch)
    (accepts' : Accepts branch (Follows dangling) other elseBranch)
    (reads : c.Reads (sym .leftParen paren ::
      (tokens ++ sym .rightParen close :: (inner ++ word .elseKw elseLine :: other))) d)
    (follows : Follows dangling d.peek.kind) :
    ifStmt p branch line c = .ok (.ifElse condition thenBranch (some elseBranch) line) d := by
  obtain ⟨e, parsed, closing⟩ := part.run (reads.advance (by simp)) rfl
  obtain ⟨e', first, behind⟩ := (closing.advance (by simp)).split
  refine bind_of_ok (expect_run reads) (bind_of_ok parsed (bind_of_ok (expect_run closing) ?_))
  refine bind_of_ok (accepts _ _ first nofun) (peek_bind ?_)
  rw [behind.peek_eq]
  exact next_bind (bind_of_ok (accepts' _ _ (behind.advance (by simp)) follows) rfl)

theorem forStmt_run {size room : Nat} {first test change inner : List Token}
    {initial : Option Stmt} {condition advance : Option Expr} {body : Stmt}
    {paren semicolon close : Nat} {dangling : Bool}
    (clause : Accepts (forInitial size room) (fun _ => True) first initial)
    (testPart : OptionalPart (expression size room) test condition)
    (changePart : OptionalPart (expression size room) change advance)
    (accepts : Accepts branch (Follows dangling) inner body)
    (reads : c.Reads (sym .leftParen paren :: (first ++ (test ++ sym .semicolon semicolon ::
      (change ++ sym .rightParen close :: inner)))) d)
    (follows : Follows dangling d.peek.kind) :
    forStmt size room branch line c =
      .ok (forTree initial condition semicolon advance body line) d := by
  obtain ⟨e₁, readFirst, rest⟩ := (reads.advance (by simp)).split
  obtain ⟨e₂, tested, closing⟩ := forCondition_run testPart rest
  refine bind_of_ok (expect_run reads) (bind_of_ok (clause _ _ readFirst trivial) ?_)
  refine bind_of_ok tested (bind_of_ok (expect_run closing) ?_)
  refine optional_run changePart (closing.advance (by simp)) rfl (by simp [Level.StartsWith])
    (fun e₃ behind => ?_)
  refine bind_of_ok (expect_run behind) ?_
  refine bind_of_ok (accepts _ _ (behind.advance (by simp)) follows) ?_
  rw [forLoop_eq_forTree]
  rfl

/-- A block after its opening brace. -/
theorem block_run {size room : Nat} {tokens : List Token} {trees : List Stmt} {close : Nat}
    (accepts : Accepts (declarations true (declaration size room) size)
      (· = .symbol .rightBrace) tokens trees)
    (reads : c.Reads (tokens ++ [sym .rightBrace close]) d) :
    block size (room + 1) c = .ok trees d := by
  obtain ⟨e, inner, closing⟩ := reads.split
  have body := accepts _ _ inner.enter (by
    show e.peek.kind = _
    rw [closing.peek_eq])
  have inside : insideBlock (declarations true (declaration size room) size) c = .ok trees e :=
    insideBlock_run_ok body
  refine bind_of_ok inside (bind_of_ok (expect_run closing) ?_)
  rw [(closing.advance (by simp)).eq_of_nil]
  rfl

end Parse

namespace Grammar

open Parse

mutual

/-- **Every statement of the grammar is accepted**, and what follows is left, if
it is no `else` that would still belong to the statement. -/
theorem Statement.parses (size : Nat) {dangling : Bool} {tokens : List Token} {tree : Stmt} :
    Statement dangling tokens tree → ∀ room : Nat, tokens.length ≤ size →
      16 * tokens.length + 20 ≤ room →
      Accepts (statement size room) (Follows dangling) tokens tree
  | .expression value => by
      intro room short enough c d reads _
      simp only [List.length_append, List.length_singleton] at short enough
      obtain ⟨room, rfl⟩ := Nat.exists_eq_add_of_le' (show 2 ≤ room by omega)
      have parsed := expressionStmt_accepts size (room + 1) value (by omega) (by omega)
        c d reads trivial
      obtain ⟨token, others, rfl, starts⟩ := value.head
      refine peek_bind ?_
      rw [reads.peek_eq]
      generalize token.kind = kind at starts
      -- the token starts an expression, so it is none of those that start other statements
      split <;> first | exact starts.elim | exact parsed
  | .print value => by
      intro room short enough c d reads _
      simp only [List.length_cons, List.length_append] at short enough
      obtain ⟨room, rfl⟩ := Nat.exists_eq_add_of_le' (show 2 ≤ room by omega)
      have part := value.part size room (by omega) (by omega)
      refine peek_bind ?_
      rw [reads.peek_eq]
      exact next_bind (printStmt_run part (reads.advance (by simp)))
  | .returnValue value => by
      intro room short enough c d reads _
      simp only [List.length_cons, List.length_append] at short enough
      obtain ⟨room, rfl⟩ := Nat.exists_eq_add_of_le' (show 2 ≤ room by omega)
      have part := value.clause size room (by omega) (by omega)
      refine peek_bind ?_
      rw [reads.peek_eq]
      exact next_bind (returnStmt_run part (reads.advance (by simp)))
  | .block body => by
      intro room short enough c d reads _
      simp only [List.length_cons, List.length_append] at short enough
      obtain ⟨room, rfl⟩ := Nat.exists_eq_add_of_le' (show 2 ≤ room by omega)
      have inner := body.parses size true room size (by omega) (by omega) (by omega)
      have parsed := block_run (fun c d reads close => inner c d reads (.inr ⟨rfl, close⟩))
        (reads.advance (by simp))
      refine peek_bind ?_
      rw [reads.peek_eq]
      exact next_bind (bind_of_ok parsed rfl)
  | .ifThen value inner => by
      intro room short enough c d reads follows
      simp only [List.length_cons, List.length_append] at short enough
      obtain ⟨room, rfl⟩ := Nat.exists_eq_add_of_le' (show 2 ≤ room by omega)
      have part := value.part size room (by omega) (by omega)
      have accepts := inner.parses size room (by omega) (by omega)
      refine peek_bind ?_
      rw [reads.peek_eq]
      exact next_bind (ifStmt_run part accepts (reads.advance (by simp)) (follows rfl))
  | .ifElse value inner other => by
      intro room short enough c d reads follows
      simp only [List.length_cons, List.length_append] at short enough
      obtain ⟨room, rfl⟩ := Nat.exists_eq_add_of_le' (show 2 ≤ room by omega)
      have part := value.part size room (by omega) (by omega)
      have accepts := inner.parses size room (by omega) (by omega)
      have accepts' := other.parses size room (by omega) (by omega)
      refine peek_bind ?_
      rw [reads.peek_eq]
      exact next_bind (ifStmt_run_else part accepts accepts' (reads.advance (by simp)) follows)
  | .whileLoop value inner => by
      intro room short enough c d reads follows
      simp only [List.length_cons, List.length_append] at short enough
      obtain ⟨room, rfl⟩ := Nat.exists_eq_add_of_le' (show 2 ≤ room by omega)
      have part := value.part size room (by omega) (by omega)
      have accepts := inner.parses size room (by omega) (by omega)
      refine peek_bind ?_
      rw [reads.peek_eq]
      exact next_bind (whileStmt_run part accepts (reads.advance (by simp)) follows)
  | .forLoop initial test change inner => by
      intro room short enough c d reads follows
      simp only [List.length_cons, List.length_append] at short enough
      obtain ⟨room, rfl⟩ := Nat.exists_eq_add_of_le' (show 2 ≤ room by omega)
      have clause := forInitial_accepts size room initial (by omega) (by omega)
      have testPart := test.clause size room (by omega) (by omega)
      have changePart := change.clause size room (by omega) (by omega)
      have accepts := inner.parses size room (by omega) (by omega)
      refine peek_bind ?_
      rw [reads.peek_eq]
      exact next_bind
        (forStmt_run clause testPart changePart accepts (reads.advance (by simp)) follows)

theorem Declaration.parses (size : Nat) {tokens : List Token} {tree : Stmt} :
    Declaration tokens tree → ∀ room : Nat, tokens.length ≤ size →
      16 * tokens.length + 21 ≤ room →
      Accepts (declaration size room) (· ≠ .keyword .elseKw) tokens (some tree)
  | @Declaration.function line name nameLine paren params names close brace tokens body
      braceClose given inner => by
      intro room short enough c d reads _
      simp only [List.length_cons, List.length_append] at short enough
      obtain ⟨room, rfl⟩ := Nat.exists_eq_add_of_le' (show 5 ≤ room by omega)
      have bodyParses := inner.parses size true (room + 2) size (by omega) (by omega) (by omega)
      have after := reads.advance (by simp)
      have parts : c.advance.Reads ((ident name nameLine :: sym .leftParen paren ::
          (params ++ [sym .rightParen close, sym .leftBrace brace])) ++
          (tokens ++ [sym .rightBrace braceClose])) d := by
        simpa using after
      obtain ⟨e, head, rest⟩ := parts.split
      have headed := functionHead_accepts size given (by omega) _ _ head trivial
      have parsed := block_run (fun c d reads close => bodyParses c d reads (.inr ⟨rfl, close⟩))
        rest
      refine recover_run_ok (peek_bind ?_)
      rw [reads.peek_eq]
      exact next_bind (bind_of_ok headed (bind_of_ok parsed rfl))
  | @Declaration.varDecl line tokens name initial decl => by
      intro room short enough c d reads _
      simp only [List.length_cons] at short enough
      obtain ⟨room, rfl⟩ := Nat.exists_eq_add_of_le' (show 5 ≤ room by omega)
      have declared := varDecl_accepts size (room + 4) line decl (by omega) (by omega) _ _
        (reads.advance (by simp)) trivial
      refine recover_run_ok (peek_bind ?_)
      rw [reads.peek_eq]
      exact next_bind declared
  | .statement inner => by
      intro room short enough c d reads notElse
      obtain ⟨room, rfl⟩ := Nat.exists_eq_add_of_le' (show 5 ≤ room by omega)
      have parsed := inner.parses size (room + 4) short (by omega) c d reads (fun _ => notElse)
      obtain ⟨token, others, rfl, begins⟩ := inner.head
      refine recover_run_ok (peek_bind ?_)
      rw [reads.peek_eq]
      generalize token.kind = kind at begins
      split
      · exact absurd rfl begins.notDef
      · exact absurd rfl begins.notVar
      · exact parsed

/-- A list of declarations is read to its end, where the parser stops. -/
theorem Declarations.parses (size : Nat) {tokens : List Token} {trees : List Stmt} :
    Declarations tokens trees → ∀ (inBlock : Bool) (room passes : Nat), tokens.length ≤ size →
      tokens.length ≤ passes → 16 * tokens.length + 21 ≤ room →
      Accepts (declarations inBlock (declaration size room) passes)
        (fun kind => kind = .endOfInput ∨ inBlock = true ∧ kind = .symbol .rightBrace) tokens trees
  | .nil => by
      intro inBlock room passes _ _ _ c d reads ends
      obtain rfl := reads.eq_of_nil
      cases passes with
      | zero => rfl
      | succ passes =>
          refine peek_bind ?_
          rw [if_pos]
          · rfl
          · simpa using ends
  | @Declarations.cons tokens tree others trees first rest => by
      intro inBlock room passes short bounded enough c d reads ends
      simp only [List.length_append] at short bounded enough
      obtain ⟨e, readFirst, readRest⟩ := reads.split
      -- behind the first declaration comes the next one or the end, but no `else`
      have notElse : e.peek.kind ≠ .keyword .elseKw := by
        cases rest with
        | nil =>
            rw [readRest.eq_of_nil]
            rcases ends with ends | ⟨-, ends⟩ <;> simp [ends]
        | cons second more =>
            obtain ⟨token, tail, rfl, begins⟩ := second.head
            rw [readRest.peek_eq]
            exact begins.notElse
      have parsed := first.parses size room (by omega) (by omega) c e readFirst notElse
      obtain ⟨token, tail, rfl, begins⟩ := first.head
      simp only [List.length_cons] at bounded
      obtain ⟨passes, rfl⟩ := Nat.exists_eq_add_of_le' (show 1 ≤ passes by omega)
      have later := rest.parses size inBlock room passes (by omega) (by omega) (by omega) e d
        readRest ends
      refine peek_bind ?_
      rw [if_neg]
      · exact bind_of_ok parsed (bind_of_ok later rfl)
      · rw [reads.peek_eq]
        simp [begins.notEnd, begins.notBrace]

end

end Grammar

/-- Sixteen units of room for each token are enough. -/
theorem parse_of_declarations {body : List Token} {trees : List Stmt}
    (phrases : Declarations body trees) {room : Nat} (line : Nat)
    (enough : 16 * body.length + 21 ≤ room) :
    parse room (body ++ [⟨.endOfInput, line⟩]) = ⟨trees, []⟩ := by
  -- all tokens are read but the last, and no mistake is noted
  have reads : (Cursor.start (body ++ [⟨.endOfInput, line⟩])).Reads body
      ⟨[⟨.endOfInput, line⟩], body.getLast?, #[], 0⟩ :=
    ⟨rfl, by simp [Cursor.start], rfl, rfl⟩
  have short : body.length ≤ (body ++ [(⟨.endOfInput, line⟩ : Token)]).length := by simp
  have run := phrases.parses _ false room _ short short enough _ _ reads (.inl rfl)
  rw [Parse.parse_of_ok run]

/-- A program is parsed without errors into its tree, with room in proportion to its
tokens. -/
theorem parse_of_program_room {tokens : List Token} {trees : List Stmt}
    (program : Program tokens trees) {room : Nat} (enough : 16 * tokens.length + 5 ≤ room) :
    parse room tokens = ⟨trees, []⟩ := by
  cases program with
  | mk phrases =>
      simp only [List.length_append, List.length_singleton] at enough
      exact parse_of_declarations phrases _ (by omega)

/-- Less room is enough, if the nesting is not reported as too deep. -/
theorem parse_of_program_fits {tokens : List Token} {trees : List Stmt}
    (program : Program tokens trees) {room : Nat} (enough : 5 ≤ room)
    (fits : ∀ error ∈ (parse room tokens).errors, error.cause ≠ .nestedTooDeeply) :
    parse room tokens = ⟨trees, []⟩ := by
  rw [← Parse.parse_extra_room enough tokens fits (16 * tokens.length)]
  exact parse_of_program_room program (by omega)

/-- **Completeness of parsing**: a program of the grammar is parsed to its trees
without a mistake. The only way out is that the nesting does not fit in the
room, which is then reported; and there is a room that fits every program of the
same length. -/
theorem parse_of_program {tokens : List Token} {trees : List Stmt}
    (program : Program tokens trees) :
    (∀ room, 5 ≤ room → (∀ error ∈ (parse room tokens).errors, error.cause ≠ .nestedTooDeeply) →
      parse room tokens = ⟨trees, []⟩) ∧
    (∀ room, 16 * tokens.length + 5 ≤ room → parse room tokens = ⟨trees, []⟩) := by
  constructor
  · intro room enough fits
    exact parse_of_program_fits program enough fits
  · intro room enough
    exact parse_of_program_room program enough

/-- `if (a) x++; else print "no";`, with little room and with room enough for any
program of its length. -/
theorem parse_of_program_ifElse :
    let tokens := [word .ifKw 1, sym .leftParen 1, ident "a" 1, sym .rightParen 1, ident "x" 1,
      sym .plusPlus 1, sym .semicolon 1, word .elseKw 2, word .printKw 2, ⟨.string "no", 2⟩,
      sym .semicolon 2, ⟨.endOfInput, 2⟩]
    let tree := Stmt.ifElse (.var "a" 1) (.expression (.increment "x" .up 1) 1)
      (some (.print (.literal (.string "no") 2) 2)) 1
    parse 24 tokens = ⟨[tree], []⟩ ∧ parse 200 tokens = ⟨[tree], []⟩ := by
  intro tokens tree
  have condition : Expression .assignment [ident "a" 1] (.var "a" 1) := .of_primary .name
  have step : Expression .assignment [ident "x" 1, sym (Step.symbol .up) 1]
      (.increment "x" .up 1) := .increment
  have text : Expression .assignment [⟨.string "no", 2⟩] (.literal (.string "no") 2) :=
    .of_primary .string
  have program : Program tokens [tree] :=
    .mk (.cons (.statement (.ifElse condition (.expression step) (.print text))) .nil)
  obtain ⟨fitting, ample⟩ := parse_of_program program
  exact ⟨fitting 24 (by decide) (by decide), ample 200 (by decide)⟩

end TernLang
