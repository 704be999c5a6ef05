import TernLang.Proofs.Grammar
import TernLang.Proofs.Parser.Room

/-! # Reading a phrase

`c.Reads tokens d` says that the parser gets from `c` to `d` by reading exactly
these tokens, without noting a mistake and with the same blocks open. The
primitive steps are described in these terms, once for what they do when they
succeed and once for when they do.
-/

namespace TernLang

open Grammar

/-- The cursor `d` is `c` after reading exactly `tokens`. -/
structure Cursor.Reads (c : Cursor) (tokens : List Token) (d : Cursor) : Prop where
  rest : c.rest = tokens ++ d.rest
  last : d.last = tokens.getLast?.or c.last
  errors : d.errors = c.errors
  openBlocks : d.openBlocks = c.openBlocks

namespace Cursor

theorem Reads.refl (c : Cursor) : c.Reads [] c :=
  ⟨rfl, rfl, rfl, rfl⟩

theorem Reads.eq_of_nil {c d : Cursor} (reads : c.Reads [] d) : c = d := by
  obtain ⟨rest, last, errors, openBlocks⟩ := reads
  cases c
  cases d
  simp_all

theorem Reads.trans {c d e : Cursor} {tokens others : List Token} (first : c.Reads tokens d)
    (second : d.Reads others e) : c.Reads (tokens ++ others) e where
  rest := by rw [first.rest, second.rest, List.append_assoc]
  last := by rw [second.last, first.last, List.getLast?_append, Option.or_assoc]
  errors := second.errors.trans first.errors
  openBlocks := second.openBlocks.trans first.openBlocks

theorem Reads.length_eq {c d : Cursor} {tokens : List Token} (reads : c.Reads tokens d) :
    c.rest.length = tokens.length + d.rest.length := by
  rw [reads.rest, List.length_append]

theorem Reads.size_eq {c d : Cursor} {tokens : List Token} (reads : c.Reads tokens d) :
    d.errors.size = c.errors.size := by
  rw [reads.errors]

/-- A phrase can be read in two parts. -/
theorem Reads.split {c e : Cursor} {tokens others : List Token}
    (reads : c.Reads (tokens ++ others) e) : ∃ d, c.Reads tokens d ∧ d.Reads others e := by
  refine ⟨⟨others ++ e.rest, tokens.getLast?.or c.last, c.errors, c.openBlocks⟩,
    ⟨?_, rfl, rfl, rfl⟩, ⟨rfl, ?_, reads.errors, reads.openBlocks⟩⟩
  · rw [reads.rest, List.append_assoc]
  · rw [reads.last, List.getLast?_append, Option.or_assoc]

/-- What is read outside a block can be read inside. -/
theorem Reads.enter {c d : Cursor} {tokens : List Token} (reads : c.Reads tokens d) :
    Reads { c with openBlocks := c.openBlocks + 1 } tokens
      { d with openBlocks := d.openBlocks + 1 } where
  rest := reads.rest
  last := reads.last
  errors := reads.errors
  openBlocks := by simp [reads.openBlocks]

/-- What is read inside a block is read. -/
theorem Reads.leave {c d : Cursor} {tokens : List Token}
    (reads : Reads { c with openBlocks := c.openBlocks + 1 } tokens d) :
    c.Reads tokens { d with openBlocks := d.openBlocks - 1 } where
  rest := reads.rest
  last := reads.last
  errors := reads.errors
  openBlocks := by simp [reads.openBlocks]

/-- Where the next token is not the end of input, it is the first one left. -/
theorem rest_eq_peek_cons {c : Cursor} (more : c.peek.kind ≠ .endOfInput) :
    c.rest = c.peek :: c.rest.tail := by
  unfold peek at more ⊢
  cases rest : c.rest with
  | nil => simp [rest] at more
  | cons token others => rfl

/-- Reading a token other than the end of input. -/
theorem reads_advance {c : Cursor} (more : c.peek.kind ≠ .endOfInput) :
    c.Reads [c.peek] c.advance := by
  simp only [advance, if_neg more]
  exact ⟨rest_eq_peek_cons more, rfl, rfl, rfl⟩

theorem Reads.peek_eq {c d : Cursor} {token : Token} {tokens : List Token}
    (reads : c.Reads (token :: tokens) d) : c.peek = token := by
  rw [peek, reads.rest]
  rfl

/-- Reading a phrase starts with reading its first token. -/
theorem Reads.advance {c d : Cursor} {token : Token} {tokens : List Token}
    (reads : c.Reads (token :: tokens) d) (more : token.kind ≠ .endOfInput) :
    c.advance.Reads tokens d := by
  have parts : c.Reads ([token] ++ tokens) d := reads
  obtain ⟨e, first, second⟩ := parts.split
  have peeked : c.peek = token := first.peek_eq
  have same : c.advance = e := by
    simp only [Cursor.advance, peeked, if_neg more]
    obtain ⟨rest, last, errors, openBlocks⟩ := first
    cases e
    simp_all
  rw [same]
  exact second

theorem atSymbol_iff {c : Cursor} {symbol : Symbol} :
    c.atSymbol symbol = true ↔ c.peek.kind = .symbol symbol := by
  simp [atSymbol]

end Cursor

namespace Parse

/-! ## What a step did that succeeded -/

theorem of_peek_bind {α : Type} {rest : Token → Parse α} {c d : Cursor} {a : α}
    (run : (peek >>= rest) c = .ok a d) : rest c.peek c = .ok a d := run

theorem of_next_bind {α : Type} {rest : Token → Parse α} {c d : Cursor} {a : α}
    (run : (next >>= rest) c = .ok a d) : rest c.peek c.advance = .ok a d := run

theorem of_at_bind {α : Type} {symbol : Symbol} {rest : Bool → Parse α} {c d : Cursor} {a : α}
    (run : (at? symbol >>= rest) c = .ok a d) : rest (c.atSymbol symbol) c = .ok a d := run

theorem of_pure_ok {α : Type} {a b : α} {c d : Cursor}
    (run : (pure a : Parse α) c = .ok b d) : b = a ∧ c = d := by
  cases run
  exact ⟨rfl, rfl⟩

/-- A token of a known kind that comes next is read as such. -/
theorem reads_kind {kind : TokenKind} {c : Cursor} (found : c.peek.kind = kind)
    (more : kind ≠ .endOfInput) : c.Reads [⟨kind, c.peek.line⟩] c.advance := by
  subst found
  exact Cursor.reads_advance more

theorem of_accept_true {symbol : Symbol} {c d : Cursor} (run : accept symbol c = .ok true d) :
    ∃ line, c.Reads [sym symbol line] d := by
  unfold accept at run
  split at run
  · rename_i found
    cases run
    exact ⟨_, reads_kind (Cursor.atSymbol_iff.mp found) (by simp)⟩
  · cases run

theorem of_accept_false {symbol : Symbol} {c d : Cursor} (run : accept symbol c = .ok false d) :
    c = d := by
  unfold accept at run
  split at run
  · cases run
  · cases run
    rfl

/-- A symbol expected without an error has been read. -/
theorem of_expect_ok {symbol : Symbol} {expected : Expectation} {c d : Cursor}
    (run : expect symbol expected c = .ok () d) : ∃ line, c.Reads [sym symbol line] d := by
  unfold expect at run
  split at run
  · rename_i found
    cases run
    exact ⟨_, reads_kind (Cursor.atSymbol_iff.mp found) (by simp)⟩
  · cases run

/-- A name expected without an error has been read. -/
theorem of_identifier_ok {expected : Expectation} {c d : Cursor} {name : String} {line : Nat}
    (run : identifier expected c = .ok (name, line) d) : c.Reads [ident name line] d := by
  unfold identifier at run
  split at run
  · rename_i name' found
    cases run
    exact reads_kind found (by simp)
  · cases run

/-! ## Operators

Each `pick` function recognises exactly the operators of its level. -/

/-- The operators of a level are exactly those the parser picks for it. -/
theorem pickOr_iff {kind : TokenKind} {op : LogicalOp} :
    pickOr kind = some op ↔ kind = .keyword op.keyword ∧ logicalLevel op = .disjunction := by
  constructor
  · intro picked
    unfold pickOr at picked
    split at picked <;> cases picked
    exact ⟨rfl, rfl⟩
  · rintro ⟨rfl, level⟩
    cases op <;> simp_all [pickOr, LogicalOp.keyword, logicalLevel]

theorem pickAnd_iff {kind : TokenKind} {op : LogicalOp} :
    pickAnd kind = some op ↔ kind = .keyword op.keyword ∧ logicalLevel op = .conjunction := by
  constructor
  · intro picked
    unfold pickAnd at picked
    split at picked <;> cases picked
    exact ⟨rfl, rfl⟩
  · rintro ⟨rfl, level⟩
    cases op <;> simp_all [pickAnd, LogicalOp.keyword, logicalLevel]

theorem pickEquality_iff {kind : TokenKind} {op : BinaryOp} :
    pickEquality kind = some op ↔ kind = .symbol op.symbol ∧ binaryLevel op = .equality := by
  constructor
  · intro picked
    unfold pickEquality at picked
    split at picked <;> cases picked <;> exact ⟨rfl, rfl⟩
  · rintro ⟨rfl, level⟩
    cases op <;> simp_all [pickEquality, BinaryOp.symbol, binaryLevel]

theorem pickComparison_iff {kind : TokenKind} {op : BinaryOp} :
    pickComparison kind = some op ↔ kind = .symbol op.symbol ∧ binaryLevel op = .comparison := by
  constructor
  · intro picked
    unfold pickComparison at picked
    split at picked <;> cases picked <;> exact ⟨rfl, rfl⟩
  · rintro ⟨rfl, level⟩
    cases op <;> simp_all [pickComparison, BinaryOp.symbol, binaryLevel]

theorem pickTerm_iff {kind : TokenKind} {op : BinaryOp} :
    pickTerm kind = some op ↔ kind = .symbol op.symbol ∧ binaryLevel op = .term := by
  constructor
  · intro picked
    unfold pickTerm at picked
    split at picked <;> cases picked <;> exact ⟨rfl, rfl⟩
  · rintro ⟨rfl, level⟩
    cases op <;> simp_all [pickTerm, BinaryOp.symbol, binaryLevel]

theorem pickFactor_iff {kind : TokenKind} {op : BinaryOp} :
    pickFactor kind = some op ↔ kind = .symbol op.symbol ∧ binaryLevel op = .factor := by
  constructor
  · intro picked
    unfold pickFactor at picked
    split at picked <;> cases picked <;> exact ⟨rfl, rfl⟩
  · rintro ⟨rfl, level⟩
    cases op <;> simp_all [pickFactor, BinaryOp.symbol, binaryLevel]

theorem pickUnary_iff {kind : TokenKind} {op : UnaryOp} :
    pickUnary kind = some op ↔ kind = .symbol op.symbol := by
  constructor
  · intro picked
    unfold pickUnary at picked
    split at picked <;> cases picked <;> rfl
  · rintro rfl
    cases op <;> rfl

theorem pickStep_iff {kind : TokenKind} {step : Step} :
    pickStep kind = some step ↔ kind = .symbol step.symbol := by
  constructor
  · intro picked
    unfold pickStep at picked
    split at picked <;> cases picked <;> rfl
  · rintro rfl
    cases step <;> rfl

/-! ## When a step succeeds -/

/-- The parser makes of a for loop the tree the grammar gives it. -/
theorem forLoop_eq_forTree (initial : Option Stmt) (condition : Option Expr) (semicolon : Nat)
    (advance : Option Expr) (body : Stmt) (line : Nat) :
    Stmt.forLoop initial (condition.getD (.literal (.bool true) semicolon)) advance body line =
      forTree initial condition semicolon advance body line := by
  cases initial <;> cases advance <;> rfl

/-- Looking ahead reads nothing. -/
theorem peek_bind {α : Type} {rest : Token → Parse α} {c : Cursor}
    {result : EStateM.Result ParseStop Cursor α} (run : rest c.peek c = result) :
    (peek >>= rest) c = result := run

theorem next_bind {α : Type} {rest : Token → Parse α} {c : Cursor}
    {result : EStateM.Result ParseStop Cursor α} (run : rest c.peek c.advance = result) :
    (next >>= rest) c = result := run

/-- A symbol that is next is accepted. -/
theorem accept_run_true {symbol : Symbol} {line : Nat} {tokens : List Token} {c d : Cursor}
    (reads : c.Reads (sym symbol line :: tokens) d) : accept symbol c = .ok true c.advance := by
  rw [accept, if_pos]
  rw [Cursor.atSymbol_iff, reads.peek_eq]

theorem accept_run_false {symbol : Symbol} {c : Cursor} (other : c.peek.kind ≠ .symbol symbol) :
    accept symbol c = .ok false c := by
  rw [accept, if_neg]
  rwa [Cursor.atSymbol_iff]

theorem expect_run {symbol : Symbol} {expected : Expectation} {line : Nat} {tokens : List Token}
    {c d : Cursor} (reads : c.Reads (sym symbol line :: tokens) d) :
    expect symbol expected c = .ok () c.advance := by
  rw [expect, if_pos]
  rw [Cursor.atSymbol_iff, reads.peek_eq]

theorem identifier_run {expected : Expectation} {name : String} {line : Nat}
    {tokens : List Token} {c d : Cursor} (reads : c.Reads (ident name line :: tokens) d) :
    identifier expected c = .ok (name, line) c.advance := by
  rw [identifier, reads.peek_eq]

theorem at_run_true {symbol : Symbol} {line : Nat} {tokens : List Token} {c d : Cursor}
    (reads : c.Reads (sym symbol line :: tokens) d) : at? symbol c = .ok true c := by
  rw [at?, Cursor.atSymbol_iff.mpr (by rw [reads.peek_eq])]

theorem at_run_false {symbol : Symbol} {c : Cursor} (other : c.peek.kind ≠ .symbol symbol) :
    at? symbol c = .ok false c := by
  have notAt : c.atSymbol symbol = false := by
    rwa [Bool.eq_false_iff, ne_eq, Cursor.atSymbol_iff]
  rw [at?, notAt]

end Parse

end TernLang
