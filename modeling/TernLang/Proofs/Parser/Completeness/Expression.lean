import TernLang.Proofs.Parser.Reading

/-! # Every expression of the grammar is accepted

**A phrase of the grammar is parsed to its tree, and parsing stops exactly where
the phrase ends** (`Expression.parses`), if what follows does not continue the
phrase and there is room enough.

Two facts about single tokens decide where a level stops. A token that is an
operator belongs to one level, and it continues a phrase of this level and of
every looser one (`Level.StopsAt`). And the first token of a phrase shows
whether it is a sign or a primary expression (`Level.StartsWith`), so that it is
never taken for a closing bracket.

Sixteen units of room for each token are enough: the levels cost fourteen, and
a bracket, which is itself a token, two.
-/

namespace TernLang

open Grammar

namespace Grammar

/-! ## Where a phrase stops -/

/-- How tightly a level binds. -/
def Level.depth : Level → Nat
  | assignment => 0
  | disjunction => 1
  | conjunction => 2
  | equality => 3
  | comparison => 4
  | term => 5
  | factor => 6
  | unary => 7
  | call => 8
  | primary => 9

/-- The level of the phrases that a token continues, where it is an operator. -/
def operatorLevel : TokenKind → Option Level
  | .symbol .equal | .symbol .plusPlus | .symbol .minusMinus => some .assignment
  | .keyword .orKw => some .disjunction
  | .keyword .andKw => some .conjunction
  | .symbol .equalEqual | .symbol .bangEqual => some .equality
  | .symbol .less | .symbol .lessEqual | .symbol .greater | .symbol .greaterEqual =>
      some .comparison
  | .symbol .plus | .symbol .minus => some .term
  | .symbol .star | .symbol .slash => some .factor
  | .symbol .leftParen | .symbol .dot | .symbol .leftBracket => some .call
  | _ => none

/-- A phrase of the level ends in front of the token: if that is an operator, it
is one of a looser level. -/
def Level.StopsAt (level : Level) (kind : TokenKind) : Prop :=
  ∀ other, operatorLevel kind = some other → other.depth < level.depth

theorem Level.depth_tighter {level : Level} (more : level ≠ .primary) :
    level.tighter.depth = level.depth + 1 := by
  cases level <;> first | rfl | exact absurd rfl more

theorem Level.StopsAt.tighter {level : Level} {kind : TokenKind} (stops : level.StopsAt kind) :
    level.tighter.StopsAt kind := by
  intro other operator
  have looser := stops other operator
  cases level <;> simp only [Level.tighter, Level.depth] at looser ⊢ <;> omega

/-- An operator ends the operands of its level. -/
theorem Level.stopsAt_of_operator {level : Level} {kind : TokenKind}
    (operator : operatorLevel kind = some level) (more : level ≠ .primary) :
    level.tighter.StopsAt kind := by
  intro other same
  have equal : level = other := Option.some.inj (operator.symm.trans same)
  rw [← equal, Level.depth_tighter more]
  exact Nat.lt_succ_self _

/-- What is left of an equals sign or a step ends there. -/
theorem Level.disjunction_stopsAt {kind : TokenKind}
    (operator : operatorLevel kind = some .assignment) : Level.disjunction.StopsAt kind :=
  Level.stopsAt_of_operator operator (by simp)

/-- A token that is no operator ends every phrase. -/
theorem Level.stopsAt_of_none {level : Level} {kind : TokenKind}
    (none : operatorLevel kind = none) : level.StopsAt kind := by
  intro other operator
  rw [none] at operator
  cases operator

theorem operatorLevel_binary (op : BinaryOp) :
    operatorLevel (.symbol op.symbol) = some (binaryLevel op) := by
  cases op <;> rfl

theorem operatorLevel_logical (op : LogicalOp) :
    operatorLevel (.keyword op.keyword) = some (logicalLevel op) := by
  cases op <;> rfl

/-- What continues a phrase starts with an operator of its level. -/
theorem Repetition.head {level : Level} {left tree : Expr} {tokens : List Token}
    (phrase : Repetition level left tokens tree) :
    tokens = [] ∨
      ∃ token others, tokens = token :: others ∧ operatorLevel token.kind = some level := by
  cases phrase with
  | done => exact .inl rfl
  | logical => exact .inr ⟨_, _, rfl, operatorLevel_logical _⟩
  | binary => exact .inr ⟨_, _, rfl, operatorLevel_binary _⟩
  | call => exact .inr ⟨_, _, rfl, rfl⟩
  | member => exact .inr ⟨_, _, rfl, rfl⟩
  | index => exact .inr ⟨_, _, rfl, rfl⟩
  | slice => exact .inr ⟨_, _, rfl, rfl⟩

/-! ## How a phrase starts -/

/-- A phrase of the level may start with the token. -/
def Level.StartsWith (level : Level) : TokenKind → Prop
  | .number .. | .string _ | .identifier _ => True
  | .keyword .trueKw | .keyword .falseKw | .keyword .nullKw => True
  | .symbol .leftParen | .symbol .leftBracket => True
  | .symbol .bang | .symbol .minus => level.depth ≤ Level.unary.depth
  | _ => False

theorem Level.StartsWith.looser {level other : Level} {kind : TokenKind}
    (starts : level.StartsWith kind) (looser : other.depth ≤ level.depth) :
    other.StartsWith kind := by
  unfold Level.StartsWith at starts ⊢
  split at starts <;> first | trivial | exact Nat.le_trans looser starts

/-- An expression begins with a token that expressions of its level can begin with. -/
theorem Expression.head {level : Level} {tokens : List Token} {tree : Expr} :
    Expression level tokens tree →
      ∃ token others, tokens = token :: others ∧ level.StartsWith token.kind
  | .assign _ => ⟨_, _, rfl, trivial⟩
  | .increment => ⟨_, _, rfl, trivial⟩
  | .ofDisjunction inner => by
      obtain ⟨token, others, rfl, starts⟩ := inner.head
      exact ⟨token, others, rfl, starts.looser (by decide)⟩
  | @Expression.repetition level _ _ _ _ _ first _ => by
      obtain ⟨token, others, rfl, starts⟩ := first.head
      exact ⟨token, _, rfl, starts.looser (by cases level <;> decide)⟩
  | @Expression.unary op _ _ _ _ => ⟨_, _, rfl, by cases op <;> exact Nat.le_refl _⟩
  | .ofCall inner => by
      obtain ⟨token, others, rfl, starts⟩ := inner.head
      exact ⟨token, others, rfl, starts.looser (by decide)⟩
  | .number => ⟨_, _, rfl, trivial⟩
  | .string => ⟨_, _, rfl, trivial⟩
  | .true => ⟨_, _, rfl, trivial⟩
  | .false => ⟨_, _, rfl, trivial⟩
  | .null => ⟨_, _, rfl, trivial⟩
  | .name => ⟨_, _, rfl, trivial⟩
  | .grouping _ => ⟨_, _, rfl, trivial⟩
  | .list _ => ⟨_, _, rfl, trivial⟩

/-- Calls and primary expressions do not start with a sign. -/
theorem Level.StartsWith.pickUnary_eq_none {kind : TokenKind}
    (starts : Level.call.StartsWith kind) : Parse.pickUnary kind = none := by
  unfold Level.StartsWith at starts
  split at starts <;> first | rfl | exact absurd starts (by decide)

/-! ## The parser of a level -/

/-- The function that parses the level. -/
def Level.parser : Level → (size room : Nat) → Parse Expr
  | assignment => Parse.assignment
  | disjunction => Parse.disjunction
  | conjunction => Parse.conjunction
  | equality => Parse.equality
  | comparison => Parse.comparison
  | term => Parse.term
  | factor => Parse.factor
  | unary => Parse.unary
  | call => Parse.call
  | primary => Parse.primary

/-- The loop that parses the repetition of the level. -/
def Level.loop (size room : Nat) : Level → (passes : Nat) → Expr → Parse Expr
  | disjunction => Parse.chain Parse.pickOr Parse.joinLogical (Parse.conjunction size room)
  | conjunction => Parse.chain Parse.pickAnd Parse.joinLogical (Parse.equality size room)
  | equality => Parse.chain Parse.pickEquality Parse.joinBinary (Parse.comparison size room)
  | comparison => Parse.chain Parse.pickComparison Parse.joinBinary (Parse.term size room)
  | term => Parse.chain Parse.pickTerm Parse.joinBinary (Parse.factor size room)
  | factor => Parse.chain Parse.pickFactor Parse.joinBinary (Parse.unary size room)
  | call => Parse.accesses (Parse.bracketed size room) size
  | assignment | unary | primary => fun _ left => pure left

/-- The room that the level itself takes. -/
def Level.toll : Level → Nat
  | equality | comparison | term | factor => 2
  | assignment | disjunction | conjunction | unary | call | primary => 1

/-- The room that the level takes down to a primary expression. -/
def Level.cost : Level → Nat
  | assignment => 14
  | disjunction => 13
  | conjunction => 12
  | equality => 11
  | comparison => 9
  | term => 7
  | factor => 5
  | unary => 3
  | call => 2
  | primary => 1

theorem Level.cost_eq {level : Level} (more : level ≠ .primary) :
    level.cost = level.tighter.cost + level.toll := by
  cases level <;> first | rfl | exact absurd rfl more

/-- A level with a repetition parses an operand and then loops. -/
theorem Level.parser_eq {level : Level} (repeats : level.repeats = true) (size room : Nat) :
    level.parser size (room + level.toll) =
      (do level.loop size room size (← level.tighter.parser size room)) := by
  cases level <;> first | rfl | exact absurd repeats (by decide)

end Grammar

namespace Parse

/-- `step` reads the phrase `tokens` to its tree and stops there, wherever what
follows satisfies `follows`. -/
def Accepts {α : Type} (step : Parse α) (follows : TokenKind → Prop) (tokens : List Token)
    (a : α) : Prop :=
  ∀ c d : Cursor, c.Reads tokens d → follows d.peek.kind → step c = .ok a d

variable {p : Parse Expr} {size : Nat}

/-! ## Loops -/

/-- A loop over operators stops in front of a token that is none of its own. -/
theorem chain_stops {α : Type} {pick : TokenKind → Option α}
    {join : Expr → Token → α → Expr → Expr} {c : Cursor} (none : pick c.peek.kind = none)
    (passes : Nat) (left : Expr) : chain pick join p passes left c = .ok left c := by
  cases passes with
  | zero => rfl
  | succ passes =>
      rw [chain, bind_run_ok (show peek c = .ok c.peek c from rfl), none]
      rfl

theorem accesses_stops {c : Cursor} (stops : Level.call.StopsAt c.peek.kind) (passes : Nat)
    (target : Expr) : accesses p size passes target c = .ok target c := by
  cases passes with
  | zero => rfl
  | succ passes =>
      rw [accesses, bind_run_ok (show peek c = .ok c.peek c from rfl)]
      generalize c.peek.kind = kind at stops
      split
      · exact absurd (stops .call rfl) (by decide)
      · exact absurd (stops .call rfl) (by decide)
      · exact absurd (stops .call rfl) (by decide)
      · rfl

/-- The `pick` function of a level finds nothing where the level stops. -/
theorem pick_eq_none {α : Type} {level : Level} {kind : TokenKind} {pick : TokenKind → Option α}
    (operator : ∀ op, pick kind = some op → operatorLevel kind = some level)
    (stops : level.StopsAt kind) : pick kind = none := by
  cases picked : pick kind with
  | none => rfl
  | some op => exact absurd (stops level (operator op picked)) (Nat.lt_irrefl _)

theorem binary_eq_none {level : Level} {kind : TokenKind} {pick : TokenKind → Option BinaryOp}
    (picks : ∀ {op}, pick kind = some op ↔ kind = .symbol op.symbol ∧ binaryLevel op = level)
    (stops : level.StopsAt kind) : pick kind = none := by
  refine pick_eq_none (fun op picked => ?_) stops
  obtain ⟨rfl, rfl⟩ := picks.mp picked
  exact operatorLevel_binary op

theorem logical_eq_none {level : Level} {kind : TokenKind} {pick : TokenKind → Option LogicalOp}
    (picks : ∀ {op}, pick kind = some op ↔ kind = .keyword op.keyword ∧ logicalLevel op = level)
    (stops : level.StopsAt kind) : pick kind = none := by
  refine pick_eq_none (fun op picked => ?_) stops
  obtain ⟨rfl, rfl⟩ := picks.mp picked
  exact operatorLevel_logical op

/-- The loop of a level stops where the level does. -/
theorem loop_stops {level : Level} {c : Cursor} (stops : level.StopsAt c.peek.kind)
    (room passes : Nat) (left : Expr) : level.loop size room passes left c = .ok left c := by
  cases level with
  | disjunction => exact chain_stops (logical_eq_none pickOr_iff stops) passes left
  | conjunction => exact chain_stops (logical_eq_none pickAnd_iff stops) passes left
  | equality => exact chain_stops (binary_eq_none pickEquality_iff stops) passes left
  | comparison => exact chain_stops (binary_eq_none pickComparison_iff stops) passes left
  | term => exact chain_stops (binary_eq_none pickTerm_iff stops) passes left
  | factor => exact chain_stops (binary_eq_none pickFactor_iff stops) passes left
  | call => exact accesses_stops stops passes left
  | assignment => rfl
  | unary => rfl
  | primary => rfl

theorem chain_step {α : Type} {pick : TokenKind → Option α}
    {join : Expr → Token → α → Expr → Expr} {c e : Cursor} {token : Token} {op : α} {right : Expr}
    (peeked : c.peek = token) (picked : pick token.kind = some op)
    (operand : p c.advance = .ok right e) (passes : Nat) (left : Expr) :
    chain pick join p (passes + 1) left c = chain pick join p passes (join left token op right) e := by
  rw [chain, bind_run_ok (show peek c = .ok c.peek c from rfl), peeked, picked]
  show (next >>= fun _ => _) c = _
  rw [bind_run_ok (show next c = .ok c.peek c.advance from rfl), bind_run_ok operand]

/-- The loop of a level goes past an operator of the level and its operand. -/
theorem loop_binary {op : BinaryOp} {line room : Nat} {c e : Cursor} {right : Expr}
    (peeked : c.peek = sym op.symbol line)
    (operand : (binaryLevel op).tighter.parser size room c.advance = .ok right e) (passes : Nat)
    (left : Expr) :
    (binaryLevel op).loop size room (passes + 1) left c =
      (binaryLevel op).loop size room passes (.binary left op right line) e := by
  cases op <;> exact chain_step peeked (by rfl) operand passes left

theorem loop_logical {op : LogicalOp} {line room : Nat} {c e : Cursor} {right : Expr}
    (peeked : c.peek = word op.keyword line)
    (operand : (logicalLevel op).tighter.parser size room c.advance = .ok right e) (passes : Nat)
    (left : Expr) :
    (logicalLevel op).loop size room (passes + 1) left c =
      (logicalLevel op).loop size room passes (.logical left op right left.line) e := by
  cases op <;> exact chain_step peeked (by rfl) operand passes left

/-! ## Between brackets -/

/-- The phrase is one that `p` accepts as an expression. -/
structure Part (p : Parse Expr) (tokens : List Token) (tree : Expr) : Prop where
  head : ∃ token others, tokens = token :: others ∧ Level.assignment.StartsWith token.kind
  accepts : Accepts p Level.assignment.StopsAt tokens tree

/-- Phrases that `p` accepts, with commas between them. -/
inductive Parts (p : Parse Expr) : List Token → List Expr → Prop
  | last {tokens tree} : Part p tokens tree → Parts p tokens [tree]
  | more {tokens tree comma others trees} : Part p tokens tree → Parts p others trees →
      Parts p (tokens ++ sym .comma comma :: others) (tree :: trees)

/-- A phrase that `p` accepts, or nothing. -/
inductive OptionalPart (p : Parse Expr) : List Token → Option Expr → Prop
  | none : OptionalPart p [] none
  | some {tokens tree} : Part p tokens tree → OptionalPart p tokens (some tree)

/-- No expression starts with a token that closes a bracket or a clause. -/
theorem Part.peek_ne {tokens others : List Token} {tree : Expr} {symbol : Symbol} {c d : Cursor}
    (part : Part p tokens tree) (reads : c.Reads (tokens ++ others) d)
    (never : ¬ Level.assignment.StartsWith (.symbol symbol)) :
    c.peek.kind ≠ .symbol symbol := by
  intro found
  obtain ⟨token, rest, rfl, starts⟩ := part.head
  rw [reads.peek_eq] at found
  rw [found] at starts
  exact never starts

theorem Part.length_pos {tokens : List Token} {tree : Expr} (part : Part p tokens tree) :
    0 < tokens.length := by
  obtain ⟨token, rest, rfl, -⟩ := part.head
  exact Nat.succ_pos _

/-- A phrase that is followed by a symbol that is no operator. -/
theorem Part.run {tokens others : List Token} {tree : Expr} {symbol : Symbol} {line : Nat}
    {c d : Cursor} (part : Part p tokens tree)
    (reads : c.Reads (tokens ++ sym symbol line :: others) d)
    (none : operatorLevel (.symbol symbol) = none) :
    ∃ e, p c = .ok tree e ∧ e.Reads (sym symbol line :: others) d := by
  obtain ⟨e, first, rest⟩ := reads.split
  refine ⟨e, part.accepts c e first ?_, rest⟩
  rw [rest.peek_eq]
  exact Level.stopsAt_of_none none

theorem arguments_accepts {tokens : List Token} {trees : List Expr} (parts : Parts p tokens trees)
    (passes : Nat) (bounded : tokens.length ≤ passes) (before : List Expr)
    (few : before.length + trees.length ≤ maxArguments) :
    Accepts (arguments p passes before) (· = .symbol .rightParen) tokens (before ++ trees) := by
  induction parts generalizing passes before with
  | @last tokens tree part =>
      intro c d reads close
      have pos := part.length_pos
      obtain ⟨passes, rfl⟩ := Nat.exists_eq_add_of_le' (Nat.le_trans pos bounded)
      have stops : Level.assignment.StopsAt d.peek.kind := by
        rw [close]
        exact Level.stopsAt_of_none rfl
      simp only [List.length_singleton] at few
      rw [arguments, if_neg (by omega)]
      show (p >>= _) c = _
      rw [bind_run_ok (part.accepts c d reads stops),
        bind_run_ok (accept_run_false (by simp [close]))]
      rfl
  | @more tokens tree comma others trees part _ ih =>
      intro c d reads close
      have pos := part.length_pos
      simp only [List.length_append, List.length_cons] at bounded few
      -- a pass is left, since each one so far has read a token at least
      obtain ⟨passes, rfl⟩ := Nat.exists_eq_add_of_le' (show 1 ≤ passes by omega)
      obtain ⟨e, first, rest⟩ := part.run reads rfl
      rw [arguments, if_neg (by omega)]
      show (p >>= _) c = _
      rw [bind_run_ok first, bind_run_ok (accept_run_true rest)]
      have later := ih passes (by omega) (before ++ [tree]) (by simp; omega) _ _
        (rest.advance (by simp)) close
      simpa using later

theorem Parts.peek_ne {tokens others : List Token} {trees : List Expr} {symbol : Symbol}
    {c d : Cursor} (parts : Parts p tokens trees) (reads : c.Reads (tokens ++ others) d)
    (never : ¬ Level.assignment.StartsWith (.symbol symbol)) :
    c.peek.kind ≠ .symbol symbol := by
  cases parts with
  | last part => exact part.peek_ne reads never
  | more part _ =>
      rw [List.append_assoc] at reads
      exact part.peek_ne reads never

theorem finishCall_accepts {tokens : List Token} {trees : List Expr}
    (given : tokens = [] ∧ trees = [] ∨ Parts p tokens trees) (bounded : tokens.length ≤ size)
    (few : trees.length ≤ maxArguments) (callee : Expr) (line close : Nat) :
    Accepts (finishCall p size callee line) (fun _ => True) (tokens ++ [sym .rightParen close])
      (.call callee trees line) := by
  intro c d reads _
  rcases given with ⟨rfl, rfl⟩ | parts
  · refine bind_of_ok (at_run_true reads) (bind_of_ok (by rfl) ?_)
    refine bind_of_ok (expect_run reads) ?_
    rw [(reads.advance (by simp)).eq_of_nil]
    rfl
  · obtain ⟨e, inner, last⟩ := reads.split
    have notClosed : c.peek.kind ≠ .symbol .rightParen :=
      parts.peek_ne reads (by simp [Level.StartsWith])
    have all := arguments_accepts parts size bounded [] (by simpa using few) c e inner
      (by rw [last.peek_eq])
    refine bind_of_ok (at_run_false notClosed) (bind_of_ok all ?_)
    refine bind_of_ok (expect_run last) ?_
    rw [(last.advance (by simp)).eq_of_nil]
    rfl

/-- A phrase that may be missing, in front of the symbol that shows that it is. -/
theorem optional_run {α : Type} {tokens others : List Token} {value : Option Expr}
    {symbol : Symbol} {line : Nat} {c d : Cursor} (part : OptionalPart p tokens value)
    (reads : c.Reads (tokens ++ sym symbol line :: others) d)
    (plain : operatorLevel (.symbol symbol) = none)
    (never : ¬ Level.assignment.StartsWith (.symbol symbol)) {rest : Option Expr → Parse α}
    {result : EStateM.Result ParseStop Cursor α}
    (later : ∀ e : Cursor, e.Reads (sym symbol line :: others) d → rest value e = result) :
    (do if ← at? symbol then pure none >>= rest else some <$> p >>= rest) c = result := by
  cases part with
  | none => exact bind_of_ok (at_run_true reads) (bind_of_ok (by rfl) (later c reads))
  | some part =>
      obtain ⟨e, inner, behind⟩ := part.run reads plain
      refine bind_of_ok (at_run_false (part.peek_ne reads never)) ?_
      exact bind_of_ok (map_of_ok inner) (later e behind)

theorem finishSlice_accepts {tokens : List Token} {last : Option Expr}
    (part : OptionalPart p tokens last) (target : Expr) (first : Option Expr) (line close : Nat) :
    Accepts (finishSlice p target first line) (fun _ => True) (tokens ++ [sym .rightBracket close])
      (.slice target first last line) := by
  intro c d reads _
  refine optional_run part reads rfl (by simp [Level.StartsWith]) (fun e behind => ?_)
  refine bind_of_ok (expect_run behind) ?_
  rw [(behind.advance (by simp)).eq_of_nil]
  rfl

/-- The loop over elements ends at the bracket, or because no token is left for
it. -/
theorem elements_stops {c : Cursor} (close : c.peek.kind = .symbol .rightBracket) (passes : Nat)
    (before : List Expr) : elements p passes before c = .ok before c := by
  cases passes with
  | zero => rfl
  | succ passes =>
      have atClose : at? .rightBracket c = .ok true c := by
        rw [at?, Cursor.atSymbol_iff.mpr close]
      exact bind_of_ok atClose rfl

theorem elements_accepts {tokens : List Token} {trees : List Expr} (parts : Parts p tokens trees)
    (passes : Nat) (bounded : tokens.length ≤ passes) (before : List Expr) (trailing : List Token)
    (comma : trailing = [] ∨ ∃ line, trailing = [sym .comma line]) :
    Accepts (elements p passes before) (· = .symbol .rightBracket) (tokens ++ trailing)
      (before ++ trees) := by
  have never : ¬ Level.assignment.StartsWith (.symbol .rightBracket) := by simp [Level.StartsWith]
  induction parts generalizing passes before with
  | @last tokens tree part =>
      intro c d reads close
      obtain ⟨passes, rfl⟩ := Nat.exists_eq_add_of_le' (Nat.le_trans part.length_pos bounded)
      refine bind_of_ok (at_run_false (part.peek_ne reads never)) ?_
      rcases comma with rfl | ⟨line, rfl⟩
      · rw [List.append_nil] at reads
        have stops : Level.assignment.StopsAt d.peek.kind := by
          rw [close]
          exact Level.stopsAt_of_none rfl
        refine bind_of_ok (part.accepts c d reads stops) ?_
        exact bind_of_ok (accept_run_false (by simp [close])) rfl
      · obtain ⟨e, first, rest⟩ := part.run reads rfl
        refine bind_of_ok first (bind_of_ok (accept_run_true rest) ?_)
        rw [(rest.advance (by simp)).eq_of_nil]
        exact elements_stops close passes (before ++ [tree])
  | @more tokens tree comma others trees part _ ih =>
      intro c d reads close
      have pos := part.length_pos
      simp only [List.length_append, List.length_cons] at bounded
      obtain ⟨passes, rfl⟩ := Nat.exists_eq_add_of_le' (show 1 ≤ passes by omega)
      rw [List.append_assoc, List.cons_append] at reads
      refine bind_of_ok (at_run_false (part.peek_ne reads never)) ?_
      obtain ⟨e, first, rest⟩ := part.run reads rfl
      refine bind_of_ok first (bind_of_ok (accept_run_true rest) ?_)
      have later := ih passes (by omega) (before ++ [tree]) _ _ (rest.advance (by simp)) close
      simpa using later

theorem accesses_call {c d : Cursor} {line close : Nat} {tokens others : List Token}
    {trees : List Expr} {target tree : Expr} {passes : Nat}
    (reads : c.Reads (sym .leftParen line :: (tokens ++ sym .rightParen close :: others)) d)
    (given : tokens = [] ∧ trees = [] ∨ Parts p tokens trees) (bounded : tokens.length ≤ size)
    (few : trees.length ≤ maxArguments)
    (rest : ∀ e : Cursor, e.Reads others d →
      accesses p size passes (.call target trees line) e = .ok tree d) :
    accesses p size (passes + 1) target c = .ok tree d := by
  have after := reads.advance (by simp)
  rw [← List.singleton_append, ← List.append_assoc] at after
  obtain ⟨e, inner, behind⟩ := after.split
  have called := finishCall_accepts given bounded few target line close _ _ inner trivial
  refine peek_bind ?_
  rw [reads.peek_eq]
  exact next_bind (bind_of_ok called (rest e behind))

theorem accesses_member {c d : Cursor} {dot line : Nat} {name : String} {others : List Token}
    {target tree : Expr} {passes : Nat}
    (reads : c.Reads (sym .dot dot :: ident name line :: others) d)
    (rest : ∀ e : Cursor, e.Reads others d →
      accesses p size passes (.member target name line) e = .ok tree d) :
    accesses p size (passes + 1) target c = .ok tree d := by
  have after := reads.advance (by simp)
  refine peek_bind ?_
  rw [reads.peek_eq]
  exact next_bind (bind_of_ok (identifier_run after) (rest _ (after.advance (by simp))))

theorem accesses_index {c d : Cursor} {line close : Nat} {tokens others : List Token}
    {position target tree : Expr} {passes : Nat}
    (reads : c.Reads (sym .leftBracket line :: (tokens ++ sym .rightBracket close :: others)) d)
    (part : Part p tokens position)
    (rest : ∀ e : Cursor, e.Reads others d →
      accesses p size passes (.index target position line) e = .ok tree d) :
    accesses p size (passes + 1) target c = .ok tree d := by
  have after := reads.advance (by simp)
  obtain ⟨e, inner, behind⟩ := part.run after rfl
  have accessed : finishAccess p target line c.advance =
      .ok (.index target position line) e.advance := by
    refine bind_of_ok (accept_run_false (part.peek_ne after (by simp [Level.StartsWith]))) ?_
    refine bind_of_ok inner (bind_of_ok (accept_run_false (by simp [behind.peek_eq])) ?_)
    exact bind_of_ok (expect_run behind) rfl
  refine peek_bind ?_
  rw [reads.peek_eq]
  exact next_bind (bind_of_ok accessed (rest _ (behind.advance (by simp))))

theorem accesses_slice {c d : Cursor} {line colon close : Nat} {tokens tokens' others : List Token}
    {first last : Option Expr} {target tree : Expr} {passes : Nat}
    (reads : c.Reads (sym .leftBracket line ::
      (tokens ++ sym .colon colon :: (tokens' ++ sym .rightBracket close :: others))) d)
    (start : OptionalPart p tokens first) (stop : OptionalPart p tokens' last)
    (rest : ∀ e : Cursor, e.Reads others d →
      accesses p size passes (.slice target first last line) e = .ok tree d) :
    accesses p size (passes + 1) target c = .ok tree d := by
  have after := reads.advance (by simp)
  obtain ⟨e, inner, behind⟩ := after.split
  have afterColon := behind.advance (by simp)
  rw [← List.singleton_append, ← List.append_assoc] at afterColon
  obtain ⟨e', sliced, behind'⟩ := afterColon.split
  have finished := finishSlice_accepts stop target first line close _ _ sliced trivial
  have accessed : finishAccess p target line c.advance = .ok (.slice target first last line) e' := by
    cases start with
    | none =>
        rw [inner.eq_of_nil]
        exact bind_of_ok (accept_run_true behind) finished
    | some part =>
        refine bind_of_ok (accept_run_false (part.peek_ne after (by simp [Level.StartsWith]))) ?_
        have stops : Level.assignment.StopsAt e.peek.kind := by
          rw [behind.peek_eq]
          exact Level.stopsAt_of_none rfl
        refine bind_of_ok (part.accepts _ _ inner stops) ?_
        exact bind_of_ok (accept_run_true behind) finished
  refine peek_bind ?_
  rw [reads.peek_eq]
  exact next_bind (bind_of_ok accessed (rest _ behind'))

/-! ## Levels -/

/-- A chain of operators is read to its end and put together from the left. -/
theorem repetition_run {level : Level} (repeats : level.repeats = true) {room : Nat}
    {c d e : Cursor} {left tree : Expr} (enough : level.cost ≤ room)
    (first : level.tighter.parser size (room - level.toll) c = .ok left e)
    (rest : level.loop size (room - level.toll) size left e = .ok tree d) :
    level.parser size room c = .ok tree d := by
  have more : level ≠ .primary := by
    rintro rfl
    cases repeats
  have toll := Level.cost_eq more
  have split : room = room - level.toll + level.toll := by omega
  rw [split, Level.parser_eq repeats]
  exact bind_of_ok first rest

/-- A primary expression that is a single token. -/
theorem primary_token {token : Token} {tree : Expr} (more : token.kind ≠ .endOfInput)
    (run : ∀ room (c : Cursor), c.peek = token → primary size (room + 1) c = .ok tree c.advance)
    {room : Nat} (enough : 16 * [token].length + Level.primary.cost ≤ room) :
    Accepts (Level.primary.parser size room) Level.primary.StopsAt [token] tree := by
  intro c d reads _
  simp only [Level.cost] at enough
  obtain ⟨room, rfl⟩ := Nat.exists_eq_add_of_le' (show 1 ≤ room by omega)
  show primary size (room + 1) c = _
  rw [run room c reads.peek_eq, (reads.advance more).eq_of_nil]

/-- A name in front of an equals sign or a step is read by every level down to
the primary one. -/
theorem disjunction_name {c d : Cursor} {name : String} {line room : Nat}
    (reads : c.Reads [ident name line] d) (stops : Level.disjunction.StopsAt d.peek.kind)
    (enough : 13 ≤ room) : disjunction size room c = .ok (.var name line) d := by
  have primary : ∀ room, 1 ≤ room → Level.primary.parser size room c = .ok (.var name line) d := by
    intro room enough
    obtain ⟨room, rfl⟩ := Nat.exists_eq_add_of_le' enough
    rw [← (reads.advance (by simp)).eq_of_nil]
    refine peek_bind ?_
    rw [reads.peek_eq]
    rfl
  -- one level further out, the loop finds no operator of its own behind the name
  have up : ∀ level : Level, level.repeats = true → level.StopsAt d.peek.kind →
      (∀ room, level.tighter.cost ≤ room →
        level.tighter.parser size room c = .ok (.var name line) d) →
      ∀ room, level.cost ≤ room → level.parser size room c = .ok (.var name line) d := by
    intro level repeats stops tighter room enough
    have toll := Level.cost_eq (show level ≠ .primary by rintro rfl; cases repeats)
    exact repetition_run repeats enough (tighter _ (by omega)) (loop_stops stops _ _ _)
  have equality := stops.tighter.tighter
  have factor := equality.tighter.tighter.tighter
  have call := up .call rfl factor.tighter.tighter primary
  have unary : ∀ room, 3 ≤ room → Level.unary.parser size room c = .ok (.var name line) d := by
    intro room enough
    obtain ⟨room, rfl⟩ := Nat.exists_eq_add_of_le' (show 1 ≤ room by omega)
    refine peek_bind ?_
    rw [reads.peek_eq]
    exact call room (by simp only [Level.cost]; omega)
  refine up .disjunction rfl stops ?_ room enough
  refine up .conjunction rfl stops.tighter ?_
  refine up .equality rfl equality ?_
  refine up .comparison rfl equality.tighter ?_
  refine up .term rfl equality.tighter.tighter ?_
  exact up .factor rfl factor unary

end Parse

namespace Grammar

open Parse

theorem operatorLevel_step (step : Step) :
    operatorLevel (.symbol step.symbol) = some .assignment := by
  cases step <;> rfl

/-- Behind an operand comes an operator of its level, or the phrase ends. -/
theorem Repetition.stops_operand {level : Level} {left tree : Expr} {tokens : List Token}
    (rest : Repetition level left tokens tree) {c d : Cursor} (reads : c.Reads tokens d)
    (stops : level.StopsAt d.peek.kind) (more : level ≠ .primary) :
    level.tighter.StopsAt c.peek.kind := by
  rcases rest.head with rfl | ⟨token, others, rfl, operator⟩
  · rw [reads.eq_of_nil]
    exact stops.tighter
  · rw [reads.peek_eq]
    exact Level.stopsAt_of_operator operator more

mutual

/-- **Every phrase of a level is accepted by its parser**, and what follows is
left, if it does not continue the phrase. -/
theorem Expression.parses (size : Nat) {level : Level} {tokens : List Token} {tree : Expr} :
    Expression level tokens tree → ∀ room : Nat, tokens.length ≤ size →
      16 * tokens.length + level.cost ≤ room →
      Accepts (level.parser size room) level.StopsAt tokens tree
  | @Expression.assign name line equals tokens value phrase => by
      intro room short enough c d reads stops
      simp only [List.length_cons, Level.cost] at short enough
      obtain ⟨room, rfl⟩ := Nat.exists_eq_add_of_le' (show 1 ≤ room by omega)
      have parts : c.Reads ([ident name line] ++ sym .equal equals :: tokens) d := reads
      obtain ⟨e, first, rest⟩ := parts.split
      -- the equals sign continues no level inside, so the target ends in front of it
      have target : disjunction size room c = .ok (.var name line) e := by
        refine disjunction_name first ?_ (by omega)
        rw [rest.peek_eq]
        exact Level.disjunction_stopsAt rfl
      have assigned := phrase.parses size room (by omega)
        (by simp only [Level.cost]; omega) _ _ (rest.advance (by simp)) stops
      refine bind_of_ok target (peek_bind ?_)
      rw [rest.peek_eq]
      exact next_bind (bind_of_ok assigned rfl)
  | @Expression.increment name line step stepLine => by
      intro room short enough c d reads stops
      simp only [List.length_cons, Level.cost] at short enough
      obtain ⟨room, rfl⟩ := Nat.exists_eq_add_of_le' (show 1 ≤ room by omega)
      have parts : c.Reads ([ident name line] ++ [sym step.symbol stepLine]) d := reads
      obtain ⟨e, first, rest⟩ := parts.split
      have target : disjunction size room c = .ok (.var name line) e := by
        refine disjunction_name first ?_ (by omega)
        rw [rest.peek_eq]
        exact Level.disjunction_stopsAt (operatorLevel_step step)
      refine bind_of_ok target (peek_bind ?_)
      rw [rest.peek_eq, ← (rest.advance (by simp)).eq_of_nil]
      cases step <;> rfl
  | .ofDisjunction inner => by
      intro room short enough c d reads stops
      simp only [Level.cost] at enough
      obtain ⟨room, rfl⟩ := Nat.exists_eq_add_of_le' (show 1 ≤ room by omega)
      have target := inner.parses size room short
        (by simp only [Level.cost]; omega) c d reads stops.tighter
      -- what follows continues no assignment, so neither `=` nor a step is found
      have noStep : pickStep d.peek.kind = none := by
        refine pick_eq_none (fun step picked => ?_) stops
        rw [pickStep_iff.mp picked]
        exact operatorLevel_step step
      refine bind_of_ok target (peek_bind ?_)
      generalize found : d.peek.kind = kind at stops noStep
      split
      · exact absurd (stops .assignment rfl) (Nat.lt_irrefl _)
      · rw [noStep]
        rfl
  | @Expression.repetition level tokens others left tree repeats first rest => by
      intro room short enough c d reads stops
      have more : level ≠ .primary := by
        rintro rfl
        cases repeats
      have toll := Level.cost_eq more
      simp only [List.length_append] at short enough
      obtain ⟨e, readFirst, readRest⟩ := reads.split
      -- the operand is followed by an operator of this level, or by what follows the whole
      have stopsFirst := rest.stops_operand readRest stops more
      exact repetition_run repeats (by omega)
        (first.parses size _ (by omega) (by omega) c e readFirst stopsFirst)
        (rest.parses size _ _ (by omega) (by omega) (by omega) e d readRest stops)
  | @Expression.unary op line tokens right inner => by
      intro room short enough c d reads stops
      simp only [List.length_cons, Level.cost] at short enough
      obtain ⟨room, rfl⟩ := Nat.exists_eq_add_of_le' (show 1 ≤ room by omega)
      have operand := inner.parses size room (by omega)
        (by simp only [Level.cost]; omega) _ _ (reads.advance (by simp)) stops
      refine peek_bind ?_
      rw [reads.peek_eq]
      cases op <;> exact next_bind (bind_of_ok operand rfl)
  | .ofCall inner => by
      intro room short enough c d reads stops
      simp only [Level.cost] at enough
      obtain ⟨room, rfl⟩ := Nat.exists_eq_add_of_le' (show 1 ≤ room by omega)
      have called := inner.parses size room short
        (by simp only [Level.cost]; omega) c d reads stops.tighter
      obtain ⟨token, others, rfl, starts⟩ := inner.head
      refine peek_bind ?_
      rw [reads.peek_eq, starts.pickUnary_eq_none]
      exact called
  | .number => fun _ _ => primary_token (by simp) fun _ _ peeked => peek_bind (by rw [peeked]; rfl)
  | .string => fun _ _ => primary_token (by simp) fun _ _ peeked => peek_bind (by rw [peeked]; rfl)
  | .true => fun _ _ => primary_token (by simp) fun _ _ peeked => peek_bind (by rw [peeked]; rfl)
  | .false => fun _ _ => primary_token (by simp) fun _ _ peeked => peek_bind (by rw [peeked]; rfl)
  | .null => fun _ _ => primary_token (by simp) fun _ _ peeked => peek_bind (by rw [peeked]; rfl)
  | .name => fun _ _ => primary_token (by simp) fun _ _ peeked => peek_bind (by rw [peeked]; rfl)
  | @Expression.grouping line tokens inner close phrase => by
      intro room short enough c d reads _
      simp only [List.length_cons, List.length_append, Level.cost] at short enough
      obtain ⟨room, rfl⟩ := Nat.exists_eq_add_of_le' (show 2 ≤ room by omega)
      have part : Part (expression size (room + 1)) tokens inner :=
        ⟨phrase.head, phrase.parses size room (by omega) (by simp only [Level.cost]; omega)⟩
      obtain ⟨e, first, rest⟩ := part.run (reads.advance (by simp)) rfl
      refine peek_bind ?_
      rw [reads.peek_eq]
      refine next_bind (bind_of_ok first (bind_of_ok (expect_run rest) ?_))
      rw [(rest.advance (by simp)).eq_of_nil]
      rfl
  | @Expression.list line tokens elements close phrase => by
      intro room short enough c d reads _
      simp only [List.length_cons, List.length_append, Level.cost] at short enough
      obtain ⟨room, rfl⟩ := Nat.exists_eq_add_of_le' (show 2 ≤ room by omega)
      obtain ⟨e, inner, rest⟩ := (reads.advance (by simp)).split
      have close : e.peek.kind = .symbol .rightBracket := by rw [rest.peek_eq]
      have all := phrase.parses size room (by omega) (by omega) _ _ inner close
      refine peek_bind ?_
      rw [reads.peek_eq]
      refine next_bind (bind_of_ok all (bind_of_ok (expect_run rest) ?_))
      rw [(rest.advance (by simp)).eq_of_nil]
      rfl

/-- The rest of a chain of operators is read from any left operand, with a pass for every
token. -/
theorem Repetition.parses (size : Nat) {level : Level} {left tree : Expr} {tokens : List Token} :
    Repetition level left tokens tree → ∀ room passes : Nat, tokens.length ≤ size →
      tokens.length ≤ passes → 16 * tokens.length + level.tighter.cost ≤ room →
      Accepts (level.loop size room passes left) level.StopsAt tokens tree
  -- each repetition takes one pass of the loop and leaves the rest of the tokens
  | .done => by
      intro room passes _ _ _ c d reads stops
      obtain rfl := reads.eq_of_nil
      exact loop_stops stops room passes _
  | @Repetition.logical op line left tokens right others tree operand rest => by
      intro room passes short bounded enough c d reads stops
      simp only [List.length_cons, List.length_append] at short bounded enough
      obtain ⟨passes, rfl⟩ := Nat.exists_eq_add_of_le' (show 1 ≤ passes by omega)
      obtain ⟨e, first, behind⟩ := (reads.advance (by simp)).split
      have stopsFirst := rest.stops_operand behind stops (by cases op <;> simp [logicalLevel])
      have parsed := operand.parses size room (by omega) (by omega) _ _ first stopsFirst
      rw [loop_logical reads.peek_eq parsed]
      exact rest.parses size room passes (by omega) (by omega) (by omega) _ _ behind stops
  | @Repetition.binary op line left tokens right others tree operand rest => by
      intro room passes short bounded enough c d reads stops
      simp only [List.length_cons, List.length_append] at short bounded enough
      obtain ⟨passes, rfl⟩ := Nat.exists_eq_add_of_le' (show 1 ≤ passes by omega)
      obtain ⟨e, first, behind⟩ := (reads.advance (by simp)).split
      have stopsFirst := rest.stops_operand behind stops (by cases op <;> simp [binaryLevel])
      have parsed := operand.parses size room (by omega) (by omega) _ _ first stopsFirst
      rw [loop_binary reads.peek_eq parsed]
      exact rest.parses size room passes (by omega) (by omega) (by omega) _ _ behind stops
  | @Repetition.call line left tokens arguments close others tree given rest => by
      intro room passes short bounded enough c d reads stops
      simp only [List.length_cons, List.length_append] at short bounded enough
      obtain ⟨passes, rfl⟩ := Nat.exists_eq_add_of_le' (show 1 ≤ passes by omega)
      obtain ⟨inner, rfl⟩ := Nat.exists_eq_add_of_le' (show 2 ≤ room by omega)
      obtain ⟨parts, few⟩ := given.parts size inner (by omega) (by omega)
      refine accesses_call reads parts (by omega) few (fun e behind => ?_)
      exact rest.parses size (inner + 2) passes (by omega) (by omega) (by omega) e d behind stops
  | @Repetition.member dot left name line others tree rest => by
      intro room passes short bounded enough c d reads stops
      simp only [List.length_cons] at short bounded enough
      obtain ⟨passes, rfl⟩ := Nat.exists_eq_add_of_le' (show 1 ≤ passes by omega)
      refine accesses_member reads (fun e behind => ?_)
      exact rest.parses size room passes (by omega) (by omega) (by omega) e d behind stops
  | @Repetition.index line left tokens position close others tree given rest => by
      intro room passes short bounded enough c d reads stops
      simp only [List.length_cons, List.length_append] at short bounded enough
      obtain ⟨passes, rfl⟩ := Nat.exists_eq_add_of_le' (show 1 ≤ passes by omega)
      obtain ⟨inner, rfl⟩ := Nat.exists_eq_add_of_le' (show 2 ≤ room by omega)
      have part : Part (bracketed size (inner + 2)) tokens position :=
        ⟨given.head, given.parses size inner (by omega) (by simp only [Level.cost]; omega)⟩
      refine accesses_index reads part (fun e behind => ?_)
      exact rest.parses size (inner + 2) passes (by omega) (by omega) (by omega) e d behind stops
  | @Repetition.slice line left tokens first colon tokens' last close others tree start stop
      rest => by
      intro room passes short bounded enough c d reads stops
      simp only [List.length_cons, List.length_append] at short bounded enough
      obtain ⟨passes, rfl⟩ := Nat.exists_eq_add_of_le' (show 1 ≤ passes by omega)
      obtain ⟨inner, rfl⟩ := Nat.exists_eq_add_of_le' (show 2 ≤ room by omega)
      have start := start.part size inner (by omega) (by omega)
      have stop := stop.part size inner (by omega) (by omega)
      refine accesses_slice reads start stop (fun e behind => ?_)
      exact rest.parses size (inner + 2) passes (by omega) (by omega) (by omega) e d behind stops

theorem Items.parts (size : Nat) {tokens : List Token} {trees : List Expr} :
    Items tokens trees → ∀ room : Nat, tokens.length ≤ size → 16 * tokens.length + 14 ≤ room →
      Parts (assignment size room) tokens trees
  | .last phrase => by
      intro room short enough
      exact .last ⟨phrase.head, phrase.parses size room short enough⟩
  | .more phrase others => by
      intro room short enough
      simp only [List.length_cons, List.length_append] at short enough
      refine .more ⟨phrase.head, ?_⟩ (others.parts size room (by omega) (by omega))
      exact phrase.parses size room (by omega) (by simp only [Level.cost]; omega)

theorem Arguments.parts (size : Nat) {tokens : List Token} {trees : List Expr} :
    Arguments tokens trees → ∀ room : Nat, tokens.length ≤ size →
      16 * tokens.length + 14 ≤ room →
      (tokens = [] ∧ trees = [] ∨ Parts (assignment size room) tokens trees) ∧
        trees.length ≤ maxArguments
  | .none => by
      intro room _ _
      exact ⟨.inl ⟨rfl, rfl⟩, Nat.zero_le _⟩
  | .some items few => by
      intro room short enough
      exact ⟨.inr (items.parts size room short enough), few⟩

theorem Elements.parses (size : Nat) {tokens : List Token} {trees : List Expr} :
    Elements tokens trees → ∀ room : Nat, tokens.length ≤ size →
      16 * tokens.length + 14 ≤ room →
      Accepts (elements (assignment size room) size []) (· = .symbol .rightBracket) tokens trees
  | .none => by
      intro room _ _ c d reads close
      obtain rfl := reads.eq_of_nil
      exact elements_stops close size []
  | .some items => by
      intro room short enough
      have parts := items.parts size room short enough
      simpa using elements_accepts parts size short [] [] (.inl rfl)
  | .comma items => by
      intro room short enough
      simp only [List.length_append] at short enough
      have parts := items.parts size room (by omega) (by omega)
      exact elements_accepts parts size (by omega) [] _ (.inr ⟨_, rfl⟩)

theorem Bound.part (size : Nat) {tokens : List Token} {value : Option Expr} :
    Bound tokens value → ∀ room : Nat, tokens.length ≤ size → 16 * tokens.length + 14 ≤ room →
      OptionalPart (assignment size room) tokens value
  | .none => by
      intro room _ _
      exact .none
  | .some phrase => by
      intro room short enough
      exact .some ⟨phrase.head, phrase.parses size room short enough⟩

end

end Grammar

end TernLang
