import TernLang.Proofs.Parser.Runs
import TernLang.Proofs.Parser.Soundness.Expression

/-! # What is accepted as a program

**A program that is parsed without a mistake is one of the grammar**
(`program_of_parse`): every token in front of the end of input was read by the
production that allows it, and the statements are the trees of that reading.
Leaving a statement after a mistake skips tokens, but only after the mistake
was noted.

A statement that ends with an `if` without an `else` is only ever followed by
something other than an `else`, so `YieldsStatement` also looks at the token
behind the statement.
-/

namespace TernLang

open Grammar

namespace Grammar

theorem Statement.ne_nil {dangling : Bool} {tokens : List Token} {tree : Stmt}
    (phrase : Statement dangling tokens tree) : tokens ≠ [] := by
  cases phrase <;> simp

/-- A declaration has at least one token. -/
theorem Declaration.ne_nil {tokens : List Token} {tree : Stmt}
    (phrase : Declaration tokens tree) : tokens ≠ [] := by
  cases phrase with
  | function => simp
  | varDecl => simp
  | statement inner => exact inner.ne_nil

end Grammar

namespace Parse

variable {size : Nat} {expr : Parse Expr}

/-! ## Clauses -/

/-- A phrase with a closing symbol behind it. -/
theorem of_closed_ok {α : Type} {step : Parse α} {phrase : List Token → α → Prop}
    (yields : Yields size step phrase) {symbol : Symbol} {expected : Expectation}
    {c d e : Cursor} {a : α} (first : step c = .ok a d)
    (close : expect symbol expected d = .ok () e) (clean : e.errors.size ≤ c.errors.size)
    (short : c.rest.length ≤ size) :
    ∃ tokens line, c.Reads (tokens ++ [sym symbol line]) e ∧ phrase tokens a := by
  obtain ⟨line, readClose⟩ := of_expect_ok close
  have same := readClose.size_eq
  obtain ⟨tokens, reads, inner⟩ := yields _ _ _ first (by omega) short
  exact ⟨tokens, line, reads.trans readClose, inner⟩

/-- An expression that may be missing. -/
theorem Optionally.yields {c d : Cursor} {given : Option Expr} (optional : Optionally expr c given d)
    (value : Yields size expr (Expression .assignment)) (clean : d.errors.size ≤ c.errors.size)
    (short : c.rest.length ≤ size) : ∃ tokens, c.Reads tokens d ∧ Bound tokens given := by
  obtain ⟨rfl, rfl⟩ | ⟨tree, rfl, parsed⟩ := optional
  · exact ⟨[], .refl _, .none⟩
  · obtain ⟨tokens, reads, phrase⟩ := value _ _ _ parsed clean short
    exact ⟨tokens, reads, .some phrase⟩

theorem varDecl_yields (size line room : Nat) :
    Yields size (varDecl size line room) fun tokens tree =>
      ∃ name initial, Variable tokens name initial ∧ tree = .varDecl name initial line := by
  cases room with
  | zero => exact tooDeep_yields
  | succ room =>
      intro c tree d run clean short
      obtain ⟨name, nameLine, initial, e₁, e₂, named, given, close, rfl⟩ := of_varDecl_ok run
      have readName := of_identifier_ok named
      have same := readName.size_eq
      have shorter := readName.length_eq
      obtain ⟨rfl, none⟩ | ⟨value, e', rfl, equals, parsed⟩ := given
      · obtain rfl := of_accept_false none
        obtain ⟨semicolon, readClose⟩ := of_expect_ok close
        exact ⟨_, readName.trans readClose, name, .none, .plain, rfl⟩
      · obtain ⟨equalsLine, readEquals⟩ := of_accept_true equals
        have same' := readEquals.size_eq
        have shorter' := readEquals.length_eq
        obtain ⟨tokens, semicolon, reads, phrase⟩ :=
          of_closed_ok (expression_yields size room) parsed close (by omega) (by omega)
        exact ⟨_, readName.trans (readEquals.trans reads), name, _, .initial phrase, rfl⟩

theorem expressionStmt_yields (size room : Nat) :
    Yields size (expressionStmt size room) fun tokens tree =>
      ∃ inner value semicolon, Expression .assignment inner value ∧
        tokens = inner ++ [sym .semicolon semicolon] ∧ tree = .expression value value.line := by
  cases room with
  | zero => exact tooDeep_yields
  | succ room =>
      intro c tree d run clean short
      obtain ⟨value, e, parsed, close, rfl⟩ := of_expressionStmt_ok run
      obtain ⟨tokens, semicolon, reads, phrase⟩ :=
        of_closed_ok (expression_yields size room) parsed close clean short
      exact ⟨_, reads, tokens, value, semicolon, phrase, rfl, rfl⟩

theorem forInitial_yields (size room : Nat) : Yields size (forInitial size room) Initial := by
  intro c tree d run clean short
  obtain ⟨line, rfl, reads⟩ | ⟨line, decl, rfl, readVar, parsed⟩ | ⟨stmt, rfl, parsed⟩ :=
    of_forInitial_ok run
  · exact ⟨_, reads, .none⟩
  · have same := readVar.size_eq
    have shorter := readVar.length_eq
    obtain ⟨tokens, reads, name, initial, phrase, rfl⟩ :=
      varDecl_yields size line room _ _ _ parsed (by omega) (by omega)
    exact ⟨_, readVar.trans reads, .varDecl phrase⟩
  · obtain ⟨_, reads, inner, value, semicolon, phrase, rfl, rfl⟩ :=
      expressionStmt_yields size room _ _ _ parsed clean short
    exact ⟨_, reads, .expression phrase⟩

/-- The condition of a for statement and the semicolon behind it. -/
theorem of_forCondition_ok (value : Yields size expr (Expression .assignment))
    {expected : Expectation} {c d e : Cursor} {condition : Expr}
    (first : forCondition expr c = .ok condition d)
    (close : expect .semicolon expected d = .ok () e) (clean : e.errors.size ≤ c.errors.size)
    (short : c.rest.length ≤ size) :
    ∃ tokens given semicolon, c.Reads (tokens ++ [sym .semicolon semicolon]) e ∧
      Bound tokens given ∧ condition = given.getD (.literal (.bool true) semicolon) := by
  replace first := of_peek_bind first
  generalize found : c.peek.kind = kind at first
  split at first
  · obtain ⟨rfl, rfl⟩ := of_pure_ok first
    obtain ⟨semicolon, reads⟩ := of_expect_ok close
    refine ⟨[], none, semicolon, reads, .none, ?_⟩
    rw [reads.peek_eq]
    rfl
  · obtain ⟨tokens, semicolon, reads, phrase⟩ := of_closed_ok value first close clean short
    exact ⟨tokens, some condition, semicolon, reads, .some phrase, rfl⟩

/-! ## Heads -/

theorem condition_yields (value : Yields size expr (Expression .assignment))
    (opening closing : Expectation) :
    Yields size (condition expr opening closing) fun tokens tree =>
      ∃ paren inner close, Expression .assignment inner tree ∧
        tokens = sym .leftParen paren :: (inner ++ [sym .rightParen close]) := by
  intro c tree d run clean short
  obtain ⟨e₁, e₂, opened, parsed, closed⟩ := of_condition_ok run
  obtain ⟨paren, readOpen⟩ := of_expect_ok opened
  have same := readOpen.size_eq
  have shorter := readOpen.length_eq
  obtain ⟨inner, close, reads, phrase⟩ := of_closed_ok value parsed closed (by omega) (by omega)
  exact ⟨_, readOpen.trans reads, paren, inner, close, phrase, rfl⟩

theorem forClauses_yields (size room : Nat) :
    Yields size (forClauses size room) fun tokens clauses =>
      ∃ paren first test condition semicolon change close, Initial first clauses.1 ∧
        Bound test condition ∧ clauses.2.1 = condition.getD (.literal (.bool true) semicolon) ∧
        Bound change clauses.2.2 ∧
        tokens = sym .leftParen paren :: (first ++ (test ++ sym .semicolon semicolon ::
          (change ++ [sym .rightParen close]))) := by
  rintro c ⟨initial, value, advance⟩ d run clean short
  obtain ⟨e₁, e₂, e₃, e₄, e₅, opened, first, second, ended, third, closed⟩ := of_forClauses_ok run
  have travels := expression_travels size room
  obtain ⟨paren, readOpen⟩ := of_expect_ok opened
  obtain ⟨close, readClose⟩ := of_expect_ok closed
  have same := readOpen.size_eq
  have shorter := readOpen.length_eq
  have same' := readClose.size_eq
  -- no clause takes a mistake back, so each of them was clean
  have firstGrows := (forInitial_travels size room).size_le first
  have secondGrows := (forCondition_travels travels).size_le second
  have endedGrows := (expect_travels _ _).size_le ended
  have thirdGrows := (third.moves travels).errors_size_le
  obtain ⟨clause, readFirst, firstPhrase⟩ :=
    forInitial_yields size room _ _ _ first (by omega) (by omega)
  have shorter₁ := readFirst.length_eq
  obtain ⟨test, given, semicolon, readSecond, testPhrase, rfl⟩ :=
    of_forCondition_ok (expression_yields size room) second ended (by omega) (by omega)
  have shorter₂ := readSecond.length_eq
  obtain ⟨change, readThird, changePhrase⟩ :=
    third.yields (expression_yields size room) (by omega) (by omega)
  refine ⟨_, readOpen.trans (readFirst.trans (readSecond.trans (readThird.trans readClose))),
    paren, clause, test, given, semicolon, change, close, firstPhrase, testPhrase, rfl,
    changePhrase, ?_⟩
  simp

/-! ## Functions -/

/-- The parameters of a function. If `passes` is used up, no token is left. -/
theorem parameters_yields (passes : Nat) (before : List String) {c d : Cursor}
    {names : List String} (run : parameters passes before c = .ok names d)
    (clean : d.errors.size ≤ c.errors.size) (bounded : c.rest.length ≤ passes) :
    d.rest = [] ∨ ∃ tokens added, c.Reads tokens d ∧ Parameters tokens added ∧
      names = before ++ added ∧ names.length ≤ maxArguments := by
  induction passes generalizing before c with
  | zero =>
      obtain ⟨rfl, rfl⟩ := of_pure_ok run
      exact .inl (List.eq_nil_of_length_eq_zero (by omega))
  | succ passes ih =>
      rw [parameters] at run
      split at run
      · -- the parameter is one too many, which is noted and never taken back
        replace run := of_peek_bind run
        obtain ⟨_, e, noted, run⟩ := of_bind_ok run
        have more : e.errors.size = c.errors.size + 1 := by
          cases noted
          simp [Cursor.report]
        obtain ⟨⟨name, line⟩, e', first, run⟩ := of_bind_ok run
        obtain ⟨comma, e'', accepted, run⟩ := of_bind_ok run
        have same := (of_identifier_ok first).size_eq
        have grows' := (accept_travels .comma).size_le accepted
        have grows'' : e''.errors.size ≤ d.errors.size := by
          split at run
          · exact (parameters_travels passes _).size_le run
          · obtain ⟨-, rfl⟩ := of_pure_ok run
            exact Nat.le_refl _
        omega
      · rename_i few
        obtain ⟨⟨name, line⟩, e, first, run⟩ := of_bind_ok run
        obtain ⟨comma, e', accepted, run⟩ := of_bind_ok run
        have readName := of_identifier_ok first
        cases comma with
        | false =>
            obtain rfl := of_accept_false accepted
            obtain ⟨rfl, rfl⟩ := of_pure_ok run
            refine .inr ⟨_, [name], readName, .last, rfl, ?_⟩
            simp only [List.length_append, List.length_singleton]
            omega
        | true =>
            obtain ⟨line, readComma⟩ := of_accept_true accepted
            have same := readName.size_eq
            have same' := readComma.size_eq
            have shorter := readName.length_eq
            have shorter' := readComma.length_eq
            simp only [List.length_singleton] at shorter shorter'
            -- the parser stops at the end of the input, or has read the other parameters
            rcases ih (before ++ [name]) run (by omega) (by omega) with
              ended | ⟨others, added, readOthers, rest, rfl, atMost⟩
            · exact .inl ended
            · refine .inr ⟨_, name :: added, readName.trans (readComma.trans readOthers),
                .more rest, ?_, atMost⟩
              simp

theorem functionHead_yields (size : Nat) :
    Yields size (functionHead size) fun tokens head =>
      ∃ nameLine paren params close brace, ParameterList params head.2 ∧
        tokens = ident head.1 nameLine :: sym .leftParen paren ::
          (params ++ [sym .rightParen close, sym .leftBrace brace]) := by
  rintro c ⟨name, params⟩ d run clean short
  obtain ⟨nameLine, e₁, e₂, e₃, e₄, named, opened, given, closed, entered⟩ :=
    of_functionHead_ok run
  obtain ⟨paren, readOpen⟩ := of_expect_ok opened
  obtain ⟨close, readClose⟩ := of_expect_ok closed
  obtain ⟨brace, readBrace⟩ := of_expect_ok entered
  have readStart := (of_identifier_ok named).trans readOpen
  have readEnd := readClose.trans readBrace
  have same := readStart.size_eq
  have shorter := readStart.length_eq
  have same' := readEnd.size_eq
  obtain ⟨rfl, rfl⟩ | some := given
  · exact ⟨_, readStart.trans readEnd, nameLine, paren, [], close, brace, .none, rfl⟩
  · rcases parameters_yields size [] some (by omega) (by omega) with
      ended | ⟨tokens, added, reads, phrase, rfl, atMost⟩
    · -- the parenthesis that was read cannot come after the last token
      have left := readClose.rest
      rw [ended] at left
      cases left
    · exact ⟨_, readStart.trans (reads.trans readEnd), nameLine, paren, tokens, close, brace,
        .some phrase atMost, rfl⟩

/-! ## Statements -/

/-- What is read between the two cursors is a statement, and no `else` behind it
could still belong to it. -/
abbrev ReadsStatement (c : Cursor) (tree : Stmt) (d : Cursor) : Prop :=
  ∃ dangling tokens, c.Reads tokens d ∧ Statement dangling tokens tree ∧
    (dangling = true → d.peek.kind ≠ .keyword .elseKw)

/-- Where `step` succeeds without noting a mistake, it has read a statement. -/
def YieldsStatement (size : Nat) (step : Parse Stmt) : Prop :=
  ∀ c tree d, step c = .ok tree d → d.errors.size ≤ c.errors.size → c.rest.length ≤ size →
    ReadsStatement c tree d

section Branches

variable {branch : Parse Stmt} (travels : expr.Travels) (branchTravels : branch.Travels)
  (value : Yields size expr (Expression .assignment)) (statement : YieldsStatement size branch)
include travels branchTravels value statement

/-- An if statement after its keyword. Without an `else` the token behind it was
seen to be another one. -/
theorem ifStmt_yields {line : Nat} {c d e : Cursor} {tree : Stmt}
    (read : c.Reads [word .ifKw line] d) (run : ifStmt expr branch line d = .ok tree e)
    (clean : e.errors.size ≤ c.errors.size) (short : c.rest.length ≤ size) :
    ReadsStatement c tree e := by
  obtain ⟨test, thenBranch, e, e', head, thenRun, other⟩ := of_ifStmt_ok run
  have same := read.size_eq
  have shorter := read.length_eq
  have grows := (condition_travels travels _ _).size_le head
  have grows' := branchTravels.size_le thenRun
  have readHead := condition_yields value _ _ _ _ _ head
  have readThen := statement _ _ _ thenRun
  obtain ⟨noElse, rfl, rfl⟩ | ⟨elseBranch, elseLine, readElse, elseRun, rfl⟩ := other
  · -- no `else` follows, whichever `if` it would belong to
    obtain ⟨_, readHead, paren, tokens, close, phrase, rfl⟩ := readHead (by omega) (by omega)
    have shorter' := readHead.length_eq
    obtain ⟨hangs, inner, readThen, thenPhrase, -⟩ := readThen (by omega) (by omega)
    refine ⟨true, _, read.trans (readHead.trans readThen), ?_, fun _ => noElse⟩
    simpa using Statement.ifThen phrase thenPhrase
  · have same' := readElse.size_eq
    have grows'' := branchTravels.size_le elseRun
    obtain ⟨_, readHead, paren, tokens, close, phrase, rfl⟩ := readHead (by omega) (by omega)
    have shorter' := readHead.length_eq
    obtain ⟨hangs, inner, readThen, thenPhrase, hanging⟩ := readThen (by omega) (by omega)
    have shorter'' := (readThen.trans readElse).length_eq
    obtain ⟨dangling, others, readOther, elsePhrase, behind⟩ :=
      statement _ _ _ elseRun (by omega) (by omega)
    -- the first branch is complete: an `else` follows it
    have complete : hangs = false := by
      cases hangs with
      | true => exact absurd (congrArg Token.kind readElse.peek_eq) (hanging rfl)
      | false => rfl
    subst complete
    refine ⟨dangling, _, read.trans (readHead.trans (readThen.trans (readElse.trans readOther))),
      ?_, behind⟩
    simpa using Statement.ifElse phrase thenPhrase elsePhrase

theorem whileStmt_yields {line : Nat} {c d e : Cursor} {tree : Stmt}
    (read : c.Reads [word .whileKw line] d) (run : whileStmt expr branch line d = .ok tree e)
    (clean : e.errors.size ≤ c.errors.size) (short : c.rest.length ≤ size) :
    ReadsStatement c tree e := by
  obtain ⟨test, body, e', head, bodyRun, rfl⟩ := of_whileStmt_ok run
  have same := read.size_eq
  have shorter := read.length_eq
  have grows := (condition_travels travels _ _).size_le head
  have grows' := branchTravels.size_le bodyRun
  obtain ⟨_, readHead, paren, tokens, close, phrase, rfl⟩ :=
    condition_yields value _ _ _ _ _ head (by omega) (by omega)
  have shorter' := readHead.length_eq
  obtain ⟨dangling, inner, readBody, bodyPhrase, behind⟩ :=
    statement _ _ _ bodyRun (by omega) (by omega)
  refine ⟨dangling, _, read.trans (readHead.trans readBody), ?_, behind⟩
  simpa using Statement.whileLoop phrase bodyPhrase

end Branches

theorem printStmt_yields (value : Yields size expr (Expression .assignment)) {line : Nat}
    {c d e : Cursor} {tree : Stmt} (read : c.Reads [word .printKw line] d)
    (run : printStmt expr line d = .ok tree e) (clean : e.errors.size ≤ c.errors.size)
    (short : c.rest.length ≤ size) :
    ReadsStatement c tree e := by
  obtain ⟨shown, e', parsed, close, rfl⟩ := of_printStmt_ok run
  have same := read.size_eq
  have shorter := read.length_eq
  obtain ⟨tokens, semicolon, reads, phrase⟩ :=
    of_closed_ok value parsed close (by omega) (by omega)
  exact ⟨false, _, read.trans reads, .print phrase, nofun⟩

theorem returnStmt_yields (value : Yields size expr (Expression .assignment)) {line : Nat}
    {c d e : Cursor} {tree : Stmt} (read : c.Reads [word .returnKw line] d)
    (run : returnStmt expr line d = .ok tree e) (clean : e.errors.size ≤ c.errors.size)
    (short : c.rest.length ≤ size) :
    ReadsStatement c tree e := by
  obtain ⟨given, e', optional, close, rfl⟩ := of_returnStmt_ok run
  obtain ⟨semicolon, readClose⟩ := of_expect_ok close
  have same := read.size_eq
  have same' := readClose.size_eq
  have shorter := read.length_eq
  obtain ⟨tokens, reads, phrase⟩ := optional.yields value (by omega) (by omega)
  exact ⟨false, _, read.trans (reads.trans readClose), .returnValue phrase, nofun⟩

theorem forStmt_yields {room line : Nat} {body : Parse Stmt} (bodyTravels : body.Travels)
    (statement : YieldsStatement size body) {c d e : Cursor} {tree : Stmt}
    (read : c.Reads [word .forKw line] d) (run : forStmt size room body line d = .ok tree e)
    (clean : e.errors.size ≤ c.errors.size) (short : c.rest.length ≤ size) :
    ReadsStatement c tree e := by
  obtain ⟨initial, value, advance, inner, e', head, bodyRun, rfl⟩ := of_forStmt_ok run
  have same := read.size_eq
  have shorter := read.length_eq
  have grows := (forClauses_travels size room).size_le head
  have grows' := bodyTravels.size_le bodyRun
  obtain ⟨_, readHead, paren, first, test, given, semicolon, change, close, firstPhrase, testPhrase,
    rfl, changePhrase, rfl⟩ := forClauses_yields size room _ _ _ head (by omega) (by omega)
  have shorter' := readHead.length_eq
  obtain ⟨dangling, tokens, readBody, bodyPhrase, behind⟩ :=
    statement _ _ _ bodyRun (by omega) (by omega)
  rw [forLoop_eq_forTree]
  refine ⟨dangling, _, read.trans (readHead.trans readBody), ?_, behind⟩
  simpa using Statement.forLoop firstPhrase testPhrase changePhrase bodyPhrase

/-! ## Declarations -/

/-- A declaration that was left after a mistake has noted it. -/
theorem of_recover_clean {α : Type} {step : Parse α} (travels : step.Travels) {c d : Cursor}
    {result : Option α} (run : recover step c = .ok result d)
    (clean : d.errors.size ≤ c.errors.size) : ∃ a, result = some a ∧ step c = .ok a d := by
  obtain accepted | ⟨-, stop, error, e, failed, rfl⟩ := of_recover_ok run
  · exact accepted
  · -- a mistake that was reported is still there after the tokens were skipped
    have grows := (travels.error failed).errors_size_le
    have kept := (Cursor.moves_synchronize (e.report error)).errors_size_le
    simp only [Cursor.report, Array.size_push] at kept clean
    omega

/-- Declarations up to where they end: the end of input or, in a block, its
closing brace. -/
theorem declarations_yields {decl : Parse (Option Stmt)} (travels : decl.Travels)
    (yields : Yields size decl fun tokens result => ∃ tree, result = some tree ∧
      Declaration tokens tree) (inBlock : Bool) (passes : Nat) {c d : Cursor} {trees : List Stmt}
    (run : declarations inBlock decl passes c = .ok trees d)
    (clean : d.errors.size ≤ c.errors.size) (short : c.rest.length ≤ size)
    (bounded : c.rest.length ≤ passes) :
    ∃ tokens, c.Reads tokens d ∧ Declarations tokens trees ∧
      (d.peek.kind = .endOfInput ∨ inBlock = true) := by
  induction passes generalizing c trees with
  | zero =>
      obtain ⟨rfl, rfl⟩ := of_pure_ok run
      have ended : c.rest = [] := List.eq_nil_of_length_eq_zero (by omega)
      exact ⟨[], .refl _, .nil, .inl (by rw [Cursor.peek, ended])⟩
  | succ passes ih =>
      obtain ⟨stops, rfl, rfl⟩ | ⟨-, result, others, e, first, rest, rfl⟩ := of_declarations_ok run
      · exact ⟨[], .refl _, .nil, stops.imp_right And.left⟩
      · have grows := travels.size_le first
        have grows' := (declarations_travels travels inBlock passes).size_le rest
        obtain ⟨tokens, reads, tree, rfl, phrase⟩ := yields _ _ _ first (by omega) short
        have shorter := reads.length_eq
        -- a declaration is never empty, so the passes suffice for the tokens that are left
        have some := List.length_pos_iff.mpr phrase.ne_nil
        obtain ⟨more, readMore, phrases, ending⟩ := ih rest (by omega) (by omega) (by omega)
        exact ⟨tokens ++ more, reads.trans readMore, .cons phrase phrases, ending⟩

mutual

theorem declaration_yields (size : Nat) : ∀ room,
    Yields size (declaration size room) fun tokens result =>
      ∃ tree, result = some tree ∧ Declaration tokens tree
  | 0 | 1 | 2 | 3 | 4 => tooDeep_yields
  | room + 5 => by
      intro c result d run clean short
      have accepted := of_recover_clean ?moves run clean
      case moves =>
        refine peek_travels.bind fun token => ?_
        split
        · exact next_travels.bind fun _ => function_travels size token.line (room + 4)
        · exact next_travels.bind fun _ => varDecl_travels size token.line (room + 4)
        · exact statement_travels size (room + 4)
      obtain ⟨tree, rfl, step⟩ := accepted
      replace run := of_peek_bind step
      generalize found : c.peek.kind = kind at run
      split at run
      · replace run := of_next_bind run
        obtain ⟨tokens, reads, phrase⟩ :=
          function_yields size (room + 4) (reads_kind found (by simp)) run clean short
        exact ⟨tokens, reads, tree, rfl, phrase⟩
      · replace run := of_next_bind run
        have readVar := reads_kind found (by simp)
        have same := readVar.size_eq
        have shorter := readVar.length_eq
        obtain ⟨tokens, reads, name, initial, phrase, rfl⟩ :=
          varDecl_yields size _ (room + 4) _ _ _ run (by omega) (by omega)
        exact ⟨_, readVar.trans reads, _, rfl, .varDecl phrase⟩
      · obtain ⟨dangling, tokens, reads, phrase, -⟩ :=
          statement_yields size (room + 4) _ _ _ run clean short
        exact ⟨tokens, reads, tree, rfl, .statement phrase⟩

/-- A function declaration after its keyword. -/
theorem function_yields (size : Nat) {line : Nat} {c d e : Cursor} {tree : Stmt} : ∀ room,
    c.Reads [word .defKw line] d → function size line room d = .ok tree e →
    e.errors.size ≤ c.errors.size → c.rest.length ≤ size →
    ∃ tokens, c.Reads tokens e ∧ Declaration tokens tree
  | 0, _, run, _, _ => by cases run
  | room + 1, read, run, clean, short => by
      obtain ⟨name, params, body, e₁, head, inner, rfl⟩ := of_function_ok run
      have same := read.size_eq
      have shorter := read.length_eq
      have grows := (functionHead_travels size).size_le head
      have grows' := (block_travels size room).size_le inner
      obtain ⟨_, readHead, nameLine, paren, names, close, brace, phrase, rfl⟩ :=
        functionHead_yields size _ _ _ head (by omega) (by omega)
      have shorter' := readHead.length_eq
      obtain ⟨_, readBody, tokens, braceClose, phrases, rfl⟩ :=
        block_yields size room _ _ _ inner (by omega) (by omega)
      refine ⟨_, read.trans (readHead.trans readBody), ?_⟩
      simpa using Declaration.function phrase phrases

theorem block_yields (size : Nat) : ∀ room,
    Yields size (block size room) fun tokens trees =>
      ∃ inner close, Declarations inner trees ∧ tokens = inner ++ [sym .rightBrace close]
  | 0 => tooDeep_yields
  | room + 1 => by
      intro c trees d run clean short
      obtain ⟨e, inside, closed⟩ := of_block_ok run
      obtain ⟨close, readClose⟩ := of_expect_ok closed
      have same := readClose.size_eq
      obtain ⟨tokens, reads, phrases, -⟩ :=
        declarations_yields (declaration_travels size room) (declaration_yields size room) true size
          inside (by simpa [same] using clean) short short
      exact ⟨_, reads.leave.trans readClose, tokens, close, phrases, rfl⟩

theorem statement_yields (size : Nat) : ∀ room, YieldsStatement size (statement size room)
  | 0 | 1 => by
      intro c tree d run
      cases run
  | room + 2 => by
      have travels := expression_travels size room
      have value := expression_yields size room
      have inner := statement_travels size room
      have branch := statement_yields size room
      intro c tree d run clean short
      replace run := of_peek_bind run
      generalize found : c.peek.kind = kind at run
      have reads : kind ≠ .endOfInput → c.Reads [⟨kind, c.peek.line⟩] c.advance := reads_kind found
      split at run
      · replace run := of_next_bind run
        exact forStmt_yields inner branch (reads (by simp)) run clean short
      · replace run := of_next_bind run
        exact ifStmt_yields travels inner value branch (reads (by simp)) run clean short
      · replace run := of_next_bind run
        exact printStmt_yields value (reads (by simp)) run clean short
      · replace run := of_next_bind run
        exact returnStmt_yields value (reads (by simp)) run clean short
      · replace run := of_next_bind run
        exact whileStmt_yields travels inner value branch (reads (by simp)) run clean short
      · replace run := of_next_bind run
        obtain ⟨body, e, parsed, run⟩ := of_bind_ok run
        obtain ⟨rfl, rfl⟩ := of_pure_ok run
        have readOpen := reads (by simp)
        have same := readOpen.size_eq
        have shorter := readOpen.length_eq
        obtain ⟨_, readBody, tokens, close, phrases, rfl⟩ :=
          block_yields size (room + 1) _ _ _ parsed (by omega) (by omega)
        exact ⟨false, _, readOpen.trans readBody, .block phrases, nofun⟩
      · obtain ⟨_, reads, tokens, value, semicolon, phrase, rfl, rfl⟩ :=
          expressionStmt_yields size (room + 1) _ _ _ run clean short
        exact ⟨false, _, reads, .expression phrase, nofun⟩

end

/-- What is parsed without a mistake are declarations, up to an end of input. -/
theorem reads_of_accepted {room : Nat} (enough : 5 ≤ room) {tokens : List Token}
    (accepted : (parse room tokens).errors = []) :
    ∃ read d, (Cursor.start tokens).Reads read d ∧ (Cursor.start tokens).Moves d ∧
      Declarations read (parse room tokens).statements ∧ d.peek.kind = .endOfInput := by
  obtain ⟨trees, d, run⟩ := declarations_ok (declaration_ok tokens.length enough) false
    tokens.length (Cursor.start tokens)
  rw [parse_of_ok run] at accepted ⊢
  have travels := declaration_travels tokens.length room
  have clean : d.errors.size ≤ (Cursor.start tokens).errors.size := by
    simpa [Cursor.start] using accepted
  obtain ⟨read, reads, phrases, ending⟩ := declarations_yields travels
    (declaration_yields tokens.length room) false tokens.length run clean (Nat.le_refl _)
    (Nat.le_refl _)
  have moves := (declarations_travels travels false tokens.length).ok run
  exact ⟨read, d, reads, moves, phrases, by simpa using ending⟩

/-- If the end of input is the last token, then all tokens in front of it are read. -/
theorem declarations_of_accepted {room : Nat} (enough : 5 ≤ room) {body : List Token} {line : Nat}
    (inner : ∀ token ∈ body, token.kind ≠ .endOfInput)
    (accepted : (parse room (body ++ [⟨.endOfInput, line⟩])).errors = []) :
    Declarations body (parse room (body ++ [⟨.endOfInput, line⟩])).statements := by
  generalize all : body ++ [⟨.endOfInput, line⟩] = tokens at accepted ⊢
  obtain ⟨read, d, reads, moves, phrases, atEnd⟩ := reads_of_accepted enough accepted
  obtain ⟨others, left⟩ := moves.endOfInput_stays all.symm
  -- the only end-of-input token is the last one, so all of the body was read
  have whole : body ++ [⟨.endOfInput, line⟩] = read ++ (others ++ [⟨.endOfInput, line⟩]) := by
    rw [← left, ← reads.rest, all]
    rfl
  rw [← List.append_assoc] at whole
  have parts := List.append_cancel_right whole
  have nothing : others = [] := by
    cases others with
    | nil => rfl
    | cons token others =>
        have first : d.peek = token := by rw [Cursor.peek, left]; rfl
        refine absurd atEnd (first ▸ inner token ?_)
        rw [parts]
        simp
  rwa [parts, nothing, List.append_nil]

end Parse

/-- **Soundness of parsing**: a token list that ends with its only end-of-input
token and is parsed without a mistake is a program of the grammar, with the
statements of the parse as its trees. With less than five units of room no
declaration can be tried at all; `parsingRoom` is never that small. -/
theorem program_of_parse {room : Nat} (enough : 5 ≤ room) (body : List Token) (line : Nat)
    (inner : ∀ token ∈ body, token.kind ≠ .endOfInput)
    (accepted : (parse room (body ++ [⟨.endOfInput, line⟩])).errors = []) :
    Program (body ++ [⟨.endOfInput, line⟩])
      (parse room (body ++ [⟨.endOfInput, line⟩])).statements := by
  have phrases := Parse.declarations_of_accepted enough inner accepted
  exact .mk phrases

/-- `if (a) x++; else print "no";` is accepted, so it is a program. -/
theorem program_of_parse_ifElse :
    let tokens := [word .ifKw 1, sym .leftParen 1, ident "a" 1, sym .rightParen 1, ident "x" 1,
      sym .plusPlus 1, sym .semicolon 1, word .elseKw 2, word .printKw 2, ⟨.string "no", 2⟩,
      sym .semicolon 2]
    Program (tokens ++ [⟨.endOfInput, 2⟩]) (parse 40 (tokens ++ [⟨.endOfInput, 2⟩])).statements :=
  program_of_parse (by decide) _ 2 (by decide) (by decide)

end TernLang
