import TernLang.Proofs.Parser.Pieces

/-! # Leaving a simple statement

A simple statement that cannot be parsed is left past the semicolon that ends it
(`synchronize_past`), or in front of the brace that closes the block around it
(`synchronize_brace`), whichever of its tokens was the wrong one: no token inside of it
ends a statement or starts one.

So **a simple statement with its semicolon stands for at most one statement**, with a
mistake if for none (`SimpleTokens.stands`); one that lacks its semicolon at the end of a
block stands for none (`SimpleTokens.stands_unclosed`).
-/

namespace TernLang

open Grammar

/-- A token that does not stand in a simple statement: a semicolon, a brace or the end. -/
def TokenKind.separates : TokenKind → Bool
  | .endOfInput | .symbol .semicolon | .symbol .leftBrace | .symbol .rightBrace => true
  | _ => false

/-- A keyword that a simple statement can start with. -/
def TokenKind.startsSimple : TokenKind → Bool
  | .keyword .varKw | .keyword .printKw | .keyword .returnKw => true
  | _ => false

namespace Parse

/-- What is meant as a simple statement, right or wrong, without its semicolon: only its
first token may be a keyword that starts a statement. -/
structure SimpleTokens (tokens : List Token) : Prop where
  plain : ∀ token ∈ tokens, token.kind.separates = false
  head : ∀ token others, tokens = token :: others → token.kind ≠ .keyword .elseKw ∧
    (token.kind.startsStatement = true → token.kind.startsSimple = true)
  tail : ∀ token ∈ tokens.tail, token.kind.startsStatement = false

/-- Tokens at which nothing ends and no statement starts. -/
def Skippable (tokens : List Token) : Prop :=
  ∀ token ∈ tokens, token.kind.separates = false ∧ token.kind.startsStatement = false

/-! ## Skipping tokens -/

theorem inner_of_separates {kind : TokenKind} (plain : kind.separates = false) : kind.Inner := by
  constructor
  · rintro rfl
    cases plain
  · unfold TokenKind.endsStatement
    split
    · cases plain
    · cases plain
    · rfl

theorem notClosing_of_separates {c : Cursor} (plain : c.peek.kind.separates = false) :
    c.atClosingBrace = false := by
  have other : c.peek.kind ≠ .symbol .rightBrace := by
    intro brace
    rw [brace] at plain
    cases plain
  simp [Cursor.atClosingBrace, Cursor.atSymbol, other]

/-- Nothing is skipped behind a token that ends a statement. -/
theorem skipStatement_ended {c : Cursor} (ended : c.last.any (·.kind.endsStatement) = true)
    (fuel : Nat) : c.skipStatement fuel = c := by
  cases fuel with
  | zero => rfl
  | succ fuel =>
      rw [Cursor.skipStatement, if_pos]
      simp [ended]

/-- A token that is neither an end nor a start is skipped. -/
theorem skipStatement_read {c : Cursor} (running : c.last.any (·.kind.endsStatement) = false)
    (more : c.peek.kind ≠ .endOfInput) (inner : c.peek.kind.startsStatement = false)
    (notClosing : c.atClosingBrace = false) (fuel : Nat) :
    c.skipStatement (fuel + 1) = c.advance.skipStatement fuel := by
  rw [Cursor.skipStatement, if_neg]
  simp [Cursor.atEnd, more, running, inner, notClosing]

section Skipping

variable {token stop : Token} {tokens tail : List Token} {c : Cursor}

theorem Skippable.behind (skippable : Skippable (token :: tokens)) : Skippable tokens :=
  fun token mem => skippable token (List.mem_cons_of_mem _ mem)

/-- What reading a token of a simple statement does. -/
theorem advance_plain (plain : token.kind.separates = false)
    (rest : c.rest = token :: tokens ++ stop :: tail) :
    c.peek = token ∧ c.peek.kind.Inner ∧
      c.advance = ⟨tokens ++ stop :: tail, some token, c.errors, c.openBlocks⟩ := by
  have peeked : c.peek = token := by rw [Cursor.peek, rest]; rfl
  have inner := inner_of_separates plain
  rw [← peeked] at inner
  refine ⟨peeked, inner, ?_⟩
  rw [Cursor.advance_eq inner.1, rest, peeked]
  rfl

/-- Skipping comes to the first token that may matter. -/
theorem skipStatement_run (skippable : Skippable tokens) (rest : c.rest = tokens ++ stop :: tail)
    (running : c.last.any (·.kind.endsStatement) = false) (fuel : Nat) :
    ∃ last, last.any (·.kind.endsStatement) = false ∧
      c.skipStatement (tokens.length + fuel) =
        Cursor.skipStatement fuel ⟨stop :: tail, last, c.errors, c.openBlocks⟩ := by
  induction tokens generalizing c with
  | nil =>
      refine ⟨c.last, running, ?_⟩
      rw [List.nil_append] at rest
      rw [List.length_nil, Nat.zero_add, ← rest]
  | cons token tokens ih =>
      obtain ⟨plain, follows⟩ := skippable token List.mem_cons_self
      obtain ⟨peeked, inner, advanced⟩ := advance_plain plain rest
      rw [← peeked] at plain follows
      rw [List.length_cons, Nat.add_right_comm, skipStatement_read running inner.1 follows
        (notClosing_of_separates plain), advanced]
      refine ih skippable.behind rfl ?_
      rw [← peeked]
      simpa using inner.2

/-- Leaving a statement at one of its tokens comes to the end of the statement. -/
theorem synchronize_run (skippable : Skippable (token :: tokens))
    (rest : c.rest = token :: tokens ++ stop :: tail) :
    ∃ last, last.any (·.kind.endsStatement) = false ∧
      c.synchronize =
        Cursor.skipStatement (tail.length + 2) ⟨stop :: tail, last, c.errors, c.openBlocks⟩ := by
  have plain := (skippable token List.mem_cons_self).1
  obtain ⟨peeked, inner, advanced⟩ := advance_plain plain rest
  rw [← peeked] at plain
  have length : c.rest.length = tokens.length + (tail.length + 2) := by
    rw [rest]
    simp only [List.cons_append, List.length_cons, List.length_append]
    omega
  rw [Cursor.synchronize, notClosing_of_separates plain, length, advanced]
  refine skipStatement_run skippable.behind rfl ?_ _
  rw [← peeked]
  simpa using inner.2

/-- A statement is left past the token that ends it, unless this is the brace that closes
the block around it. -/
theorem synchronize_past (skippable : Skippable tokens) (rest : c.rest = tokens ++ stop :: tail)
    (ends : stop.kind.endsStatement = true)
    (free : c.openBlocks = 0 ∨ stop.kind ≠ .symbol .rightBrace) :
    c.synchronize = ⟨tail, some stop, c.errors, c.openBlocks⟩ := by
  have ended : ∀ fuel, Cursor.skipStatement fuel ⟨tail, some stop, c.errors, c.openBlocks⟩ = _ :=
    skipStatement_ended (by simpa using ends)
  have more : stop.kind ≠ .endOfInput := by
    intro atEnd
    rw [atEnd] at ends
    cases ends
  have follows : stop.kind.startsStatement = false := by
    cases kind : stop.kind <;> simp_all [TokenKind.endsStatement, TokenKind.startsStatement]
  have open' : ∀ {d : Cursor}, d.peek = stop → d.openBlocks = c.openBlocks →
      d.atClosingBrace = false := by
    intro d peeked blocks
    rcases free with outside | other
    · simp [Cursor.atClosingBrace, blocks, outside]
    · simp [Cursor.atClosingBrace, Cursor.atSymbol, peeked, other]
  cases tokens with
  | nil =>
      have peeked : c.peek = stop := by rw [Cursor.peek, rest]; rfl
      rw [Cursor.synchronize, open' peeked rfl, Cursor.advance_eq (peeked ▸ more), peeked, rest]
      exact ended _
  | cons token tokens =>
      obtain ⟨last, running, skipped⟩ := synchronize_run skippable rest
      let d : Cursor := ⟨stop :: tail, last, c.errors, c.openBlocks⟩
      have peeked : d.peek = stop := rfl
      rw [← peeked] at more follows
      rw [skipped, skipStatement_read running more follows (open' peeked rfl),
        Cursor.advance_eq more]
      exact ended _

/-- A statement is left in front of the brace that closes the block around it. -/
theorem synchronize_brace {line : Nat} (skippable : Skippable tokens)
    (rest : c.rest = tokens ++ sym .rightBrace line :: tail) (inside : 0 < c.openBlocks) :
    ∃ last, c.synchronize = ⟨sym .rightBrace line :: tail, last, c.errors, c.openBlocks⟩ := by
  have closing : ∀ {d : Cursor}, d.rest = sym .rightBrace line :: tail → 0 < d.openBlocks →
      d.atClosingBrace = true := by
    intro d rest inside
    simp [Cursor.atClosingBrace, Cursor.atSymbol, Cursor.peek, rest, inside]
  cases tokens with
  | nil =>
      rw [List.nil_append] at rest
      rw [Cursor.synchronize, if_pos (closing rest inside), ← rest]
      exact ⟨c.last, rfl⟩
  | cons token tokens =>
      obtain ⟨last, -, skipped⟩ := synchronize_run skippable rest
      refine ⟨last, ?_⟩
      have stops : Cursor.atClosingBrace
          ⟨sym .rightBrace line :: tail, last, c.errors, c.openBlocks⟩ = true := closing rfl inside
      rw [skipped, Cursor.skipStatement, if_pos (by rw [stops, Bool.or_true])]

end Skipping

/-! ## Simple statements -/

/-- Recovery depends on how the step ends, not on the step. -/
theorem recover_congr {α : Type} {p q : Parse α} {c d : Cursor} (same : p c = q d) :
    recover p c = recover q d := by
  rw [recover, recover, same]

/-- What starts with no statement keyword and no brace is read as an expression. -/
theorem declaration_expression {size room : Nat} {c : Cursor}
    (plain : c.peek.kind.startsStatement = false) (other : c.peek.kind ≠ .symbol .leftBrace) :
    declaration size (room + 5) c = recover (expressionStmt size (room + 3)) c := by
  refine recover_congr (peek_bind ?_)
  generalize found : c.peek.kind = kind at plain other
  split
  · cases plain
  · cases plain
  · refine peek_bind ?_
    rw [found]
    split
    · cases plain
    · cases plain
    · cases plain
    · cases plain
    · cases plain
    · exact absurd rfl other
    · rfl

/-- A step that parses a simple statement, whatever bounds its loops. -/
def ParsesSimple (step : Nat → Parse Stmt) : Prop :=
  ∀ {E : Excerpt} {m size size' : Nat}, E.Fits m size size' → Finishes E m (step size) (step size')

/-- Behind its first token a simple statement can be skipped whole. -/
theorem SimpleTokens.skippable {token : Token} {tokens : List Token}
    (simple : SimpleTokens (token :: tokens)) : Skippable tokens :=
  fun other mem => ⟨simple.plain other (List.mem_cons_of_mem _ mem), simple.tail other mem⟩

/-- A simple statement is parsed by one step, from where no keyword is left. -/
theorem SimpleTokens.step {tokens : List Token} (simple : SimpleTokens tokens) (room : Nat) :
    ∃ (inner : List Token) (step : Nat → Parse Stmt), Skippable inner ∧ ParsesSimple step ∧
      inner.length ≤ tokens.length ∧
      ∀ {size : Nat} {c : Cursor} {stop : Token} {tail : List Token},
        c.rest = tokens ++ stop :: tail → stop.kind.endsStatement = true →
        ∃ last, declaration size (room + 5) c =
          recover (step size) ⟨inner ++ stop :: tail, last, c.errors, c.openBlocks⟩ := by
  have expression : ParsesSimple fun size => expressionStmt size (room + 3) :=
    fun fits => expressionStmt_finishes fits (room + 3)
  cases tokens with
  | nil =>
      refine ⟨[], _, nofun, expression, Nat.le_refl _, ?_⟩
      intro size c stop tail rest ends
      have peeked : c.peek = stop := by rw [Cursor.peek, rest]; rfl
      refine ⟨c.last, ?_⟩
      rw [← rest, declaration_expression]
      · rw [peeked]
        cases kind : stop.kind <;> simp_all [TokenKind.endsStatement, TokenKind.startsStatement]
      · rw [peeked]
        intro brace
        rw [brace] at ends
        cases ends
  | cons token others =>
      have plain := simple.plain token List.mem_cons_self
      cases starts : token.kind.startsStatement with
      | false =>
          have skippable : Skippable (token :: others) := by
            intro other mem
            rcases List.mem_cons.mp mem with rfl | later
            · exact ⟨plain, starts⟩
            · exact simple.skippable other later
          refine ⟨token :: others, _, skippable, expression, Nat.le_refl _, ?_⟩
          intro size c stop tail rest _
          have peeked : c.peek = token := by rw [Cursor.peek, rest]; rfl
          refine ⟨c.last, ?_⟩
          rw [← rest, declaration_expression (by rwa [peeked])]
          rw [peeked]
          intro brace
          rw [brace] at plain
          cases plain
      | true =>
          have keyword := (simple.head token others rfl).2 starts
          -- the keyword is read first, so the step starts behind it
          suffices behind : ∃ step : Nat → Parse Stmt, ParsesSimple step ∧
              ∀ {size : Nat} {c : Cursor}, c.peek = token →
                declaration size (room + 5) c = recover (step size) c.advance by
            obtain ⟨step, parses, run⟩ := behind
            refine ⟨others, step, simple.skippable, parses, Nat.le_succ _, ?_⟩
            intro size c stop tail rest _
            obtain ⟨peeked, -, advanced⟩ := advance_plain plain rest
            exact ⟨some token, by rw [run peeked, advanced]⟩
          obtain ⟨kind, line⟩ := token
          replace keyword : kind.startsSimple = true := keyword
          unfold TokenKind.startsSimple at keyword
          split at keyword
          · refine ⟨fun size => varDecl size line (room + 4),
              fun fits => varDecl_finishes fits line (room + 4), fun peeked => ?_⟩
            refine recover_congr (peek_bind ?_)
            rw [peeked]
            exact next_bind rfl
          · refine ⟨fun size => printStmt (Parse.expression size (room + 2)) line,
              fun fits => printStmt_finishes fits (room + 2) line, fun peeked => ?_⟩
            refine recover_congr (peek_bind ?_)
            rw [peeked]
            refine peek_bind ?_
            rw [peeked]
            exact next_bind rfl
          · refine ⟨fun size => returnStmt (Parse.expression size (room + 2)) line,
              fun fits => returnStmt_finishes fits (room + 2) line, fun peeked => ?_⟩
            refine recover_congr (peek_bind ?_)
            rw [peeked]
            refine peek_bind ?_
            rw [peeked]
            exact next_bind rfl
          · cases keyword

/-- The mistake that is noted where a step stops. -/
def reported (stop : ParseStop) (c : Cursor) : SyntaxError :=
  match stop with
  | .mistake error => error
  | .tooDeep => ⟨.nestedTooDeeply, c.peek⟩

/-- Whatever stops a step is reported, and the parser looks for the next statement. -/
theorem recover_run_error {α : Type} {step : Parse α} {c d : Cursor} {stop : ParseStop}
    (run : step c = .error stop d) :
    recover step c = .ok none (d.report (reported stop d)).synchronize := by
  cases stop with
  | mistake error => exact recover_run_mistake run
  | tooDeep => exact recover_run_tooDeep run

/-- What is left of a statement that ends with `stop`. -/
theorem suffix_cases {tokens read rest : List Token} {stop : Token}
    (parts : tokens ++ [stop] = read ++ rest) :
    (rest = [] ∧ read = tokens ++ [stop]) ∨
      ∃ others, rest = others ++ [stop] ∧ tokens = read ++ others := by
  rcases List.eq_nil_or_concat rest with rfl | ⟨others, last, rfl⟩
  · exact .inl ⟨rfl, by simpa using parts.symm⟩
  · rw [List.concat_eq_append, ← List.append_assoc] at parts
    obtain ⟨same, single⟩ := List.append_inj' parts rfl
    cases single
    exact .inr ⟨others, List.concat_eq_append, same⟩

section Recovered

variable {inner : List Token} {step : Nat → Parse Stmt}

/-- **A simple statement that ends with `stop`** is parsed to a statement, up to and with
the semicolon that ends it; or some mistakes are noted and the statement is left from one
of its tokens. Which of the two depends on nothing around it. -/
theorem recover_simple (skippable : Skippable inner) (parses : ParsesSimple step) (stop : Token)
    (ends : stop.kind.endsStatement = true) :
    (stop.kind = .symbol .semicolon ∧ ∃ (stmt : Stmt) (errors : List SyntaxError),
      ∀ {size tail last noted blocks}, (inner ++ stop :: tail).length ≤ size → ∃ last',
        recover (step size) ⟨inner ++ stop :: tail, last, noted, blocks⟩ =
          .ok (some stmt) ⟨tail, last', noted ++ errors.toArray, blocks⟩) ∨
    ∃ (left : List Token) (errors : List SyntaxError), Skippable left ∧ errors ≠ [] ∧
      ∀ {size tail last noted blocks}, (inner ++ stop :: tail).length ≤ size → ∃ last',
        recover (step size) ⟨inner ++ stop :: tail, last, noted, blocks⟩ =
          .ok none (Cursor.synchronize
            ⟨left ++ stop :: tail, last', noted ++ errors.toArray, blocks⟩) := by
  let start : Cursor := ⟨inner ++ [stop], none, #[], 0⟩
  let length := (inner ++ [stop]).length
  -- the statement on its own, compared with the statement where it stands
  have compared : ∀ {size tail last noted blocks}, (inner ++ stop :: tail).length ≤ size →
      Agree (Excerpt.Shows ⟨tail, noted, blocks⟩ length)
        (Excerpt.Before ⟨tail, noted, blocks⟩ length) (step length start)
        (step size ⟨inner ++ stop :: tail, last, noted, blocks⟩) := by
    intro size tail last noted blocks short
    have finishes : Finishes ⟨tail, noted, blocks⟩ length (step length) (step size) := by
      refine parses ⟨Nat.le_refl _, ?_⟩
      simpa [length, Nat.add_right_comm, Nat.add_assoc] using short
    refine finishes.run length (Nat.le_refl _) _ _ ⟨⟨?_, ?_, ?_, ?_, Nat.le_refl _⟩, ?_⟩
    · simp [start]
    · exact .inr (by simp [start])
    · simp [start]
    · simp [start]
    · exact .inr ⟨stop, by simp [start], ends⟩
  have finishes := parses (E := ⟨[], #[], 0⟩) ⟨Nat.le_refl length, Nat.le_refl length⟩
  cases alone : step length start with
  | ok stmt e =>
      obtain ⟨read, parts, token, mem, semicolon⟩ := finishes.ends _ _ _ alone
      have blocks := (finishes.travels.ok alone).openBlocks
      -- the semicolon that was read is not one of the tokens inside
      have outer : token ∉ inner := by
        intro inside
        have plain := (skippable token inside).1
        rw [semicolon] at plain
        cases plain
      rcases suffix_cases parts with ⟨left, rfl⟩ | ⟨others, -, rfl⟩
      · have here : token = stop := by simpa [outer] using mem
        refine .inl ⟨here ▸ semicolon, stmt, e.errors.toList, ?_⟩
        intro size tail last noted blocks' short
        have agree := @compared size tail last noted blocks' short
        rw [alone] at agree
        generalize standing : step size _ = result at agree
        cases agree with
        | @ok _ d _ shown =>
            have reached := shown.eq_mk
            rw [left, blocks] at reached
            refine ⟨d.last, (recover_run_ok standing).trans ?_⟩
            rw [reached]
            simp [start]
      · exact absurd (List.mem_append_left others mem) outer
  | error stopped e =>
      have moves := finishes.travels.error alone
      have blocks := moves.openBlocks
      obtain ⟨read, parts⟩ := moves.suffix
      -- the statement has not ended where it is left
      have ahead : e.EndsAhead := by
        have agree := @compared _ [stop] none #[] 0 (Nat.le_refl _)
        rw [alone] at agree
        generalize step _ _ = result at agree
        cases agree with
        | error _ before => exact before.ahead.resolve_left (List.cons_ne_nil _ _)
      rcases suffix_cases parts with ⟨left, -⟩ | ⟨others, left, rfl⟩
      · exact absurd left ahead.rest_ne_nil
      · refine .inr ⟨others, (e.errors.push (reported stopped e)).toList,
          fun token mem => skippable token (List.mem_append_right read mem), by simp, ?_⟩
        intro size tail last noted blocks' short
        have agree := @compared size tail last noted blocks' short
        rw [alone] at agree
        generalize standing : step size _ = result at agree
        cases agree with
        | @error _ d _ before =>
            have reached := before.toShows.eq_mk
            rw [left, blocks] at reached
            have same : reported stopped d = reported stopped e := by
              cases stopped <;> simp [reported, before.peek]
            refine ⟨d.last, (recover_run_error standing).trans ?_⟩
            rw [same, reached, Array.toArray_toList]
            simp [start, Cursor.report]

end Recovered

section Stands

variable {tokens : List Token} {room : Nat}

/-- A simple statement starts with a token of its own, or with its semicolon. -/
theorem SimpleTokens.begins (simple : SimpleTokens tokens) {c : Cursor} {stop : Token}
    {tail : List Token} (rest : c.rest = tokens ++ stop :: tail)
    (some : tokens ≠ [] ∨ stop.kind = .symbol .semicolon) :
    c.peek.kind ≠ .endOfInput ∧ c.peek.kind ≠ .symbol .rightBrace := by
  cases tokens with
  | nil =>
      have peeked : c.peek = stop := by rw [Cursor.peek, rest]; rfl
      rw [peeked, some.resolve_left (by simp)]
      simp
  | cons token others =>
      have peeked : c.peek = token := by rw [Cursor.peek, rest]; rfl
      have plain := simple.plain token List.mem_cons_self
      rw [peeked]
      constructor
      · intro kind
        rw [kind] at plain
        cases plain
      · intro kind
        rw [kind] at plain
        cases plain

/-- A simple statement does not start with an `else`. -/
theorem SimpleTokens.apart (simple : SimpleTokens tokens) {stop : Token}
    (other : stop.kind ≠ .keyword .elseKw) (blocks : Nat) (tail : List Token) :
    Apart blocks (tokens ++ stop :: tail) := by
  intro token others same
  cases tokens with
  | nil =>
      cases same
      exact other
  | cons first behind =>
      cases same
      exact (simple.head token behind rfl).1

/-- **A simple statement with its semicolon stands for one statement**, or it stands for
none and for some mistakes, whatever is around it. -/
theorem SimpleTokens.stands (simple : SimpleTokens tokens) (enough : 5 ≤ room) (line : Nat) :
    ∃ (stmt : Option Stmt) (errors : List SyntaxError), (stmt = none → errors ≠ []) ∧
      Stands room (tokens ++ [sym .semicolon line]) stmt.toList errors fun _ _ => True := by
  obtain ⟨room, rfl⟩ := Nat.exists_eq_add_of_le' enough
  obtain ⟨inner, step, skippable, parses, shorter, declared⟩ := simple.step room
  suffices recovered : ∃ (stmt : Option Stmt) (errors : List SyntaxError),
      (stmt = none → errors ≠ []) ∧ ∀ {size tail last noted blocks},
        (inner ++ sym .semicolon line :: tail).length ≤ size → ∃ last',
          recover (step size) ⟨inner ++ sym .semicolon line :: tail, last, noted, blocks⟩ =
            .ok stmt ⟨tail, last', noted ++ errors.toArray, blocks⟩ by
    obtain ⟨stmt, errors, mistaken, run⟩ := recovered
    refine ⟨stmt, errors, mistaken, ?_⟩
    intro size c tail inBlock rest short _
    rw [List.append_assoc, List.singleton_append] at rest
    rw [rest] at short
    obtain ⟨last, left⟩ := @declared size c (sym .semicolon line) tail rest rfl
    obtain ⟨last', ran⟩ := @run size tail last c.errors c.openBlocks (by
      simp only [List.length_append] at short ⊢
      omega)
    obtain ⟨more, inside⟩ := simple.begins rest (.inr rfl)
    refine ⟨last', ?_⟩
    rw [← List.append_nil stmt.toList]
    refine .step more (fun _ => inside) (left.trans ran) ?_ .here
    rw [rest, List.length_append, List.length_cons]
    exact Nat.lt_of_lt_of_le (Nat.lt_succ_self _) (Nat.le_add_left _ _)
  rcases recover_simple skippable parses (sym .semicolon line) rfl with
    ⟨-, stmt, errors, run⟩ | ⟨left, errors, skippable', some, run⟩
  · exact ⟨some stmt, errors, nofun, run⟩
  · refine ⟨none, errors, fun _ => some, fun {size tail last noted blocks} short => ?_⟩
    obtain ⟨last', ran⟩ := @run size tail last noted blocks short
    have passes : ∀ c : Cursor, c.rest = left ++ sym .semicolon line :: tail →
        c.synchronize = ⟨tail, .some (sym .semicolon line), c.errors, c.openBlocks⟩ :=
      fun c rest => synchronize_past skippable' rest rfl (.inr (by simp))
    rw [passes _ rfl] at ran
    exact ⟨_, ran⟩

/-- **A simple statement that lacks its semicolon at the end of a block** stands for no
statement and for some mistakes: those that it has in front of a brace outside of all
blocks, which it is left past. -/
theorem SimpleTokens.stands_unclosed (simple : SimpleTokens tokens) (some : tokens ≠ [])
    (enough : 5 ≤ room) (line : Nat) :
    ∃ errors : List SyntaxError, errors ≠ [] ∧ Stands room tokens [] errors (Enclosed line) ∧
      Stands room (tokens ++ [sym .rightBrace line]) [] errors fun blocks _ => blocks = 0 := by
  obtain ⟨room, rfl⟩ := Nat.exists_eq_add_of_le' enough
  obtain ⟨inner, step, skippable, parses, shorter, declared⟩ := simple.step room
  rcases recover_simple skippable parses (sym .rightBrace line) rfl with
    ⟨semicolon, -⟩ | ⟨left, errors, skippable', mistaken, run⟩
  · cases semicolon
  · -- both places are compared with the same recovery
    have recovered : ∀ {size : Nat} {c : Cursor} {tail : List Token},
        c.rest = tokens ++ sym .rightBrace line :: tail → c.rest.length ≤ size →
        ∃ last, declaration size (room + 5) c = .ok none (Cursor.synchronize
          ⟨left ++ sym .rightBrace line :: tail, last, c.errors ++ errors.toArray,
            c.openBlocks⟩) := by
      intro size c tail rest short
      rw [rest] at short
      obtain ⟨last, start⟩ := @declared size c (sym .rightBrace line) tail rest rfl
      obtain ⟨last', ran⟩ := @run size tail last c.errors c.openBlocks (by
        simp only [List.length_append] at short ⊢
        omega)
      exact ⟨last', start.trans ran⟩
    have atLeast := List.length_pos_iff.mpr some
    refine ⟨errors, mistaken, ?_, ?_⟩
    · -- inside of the block the recovery stops in front of its brace
      intro size c tail inBlock rest short ⟨inside, others, follows⟩
      subst follows
      obtain ⟨last, ran⟩ := recovered rest short
      obtain ⟨last', stays⟩ := synchronize_brace skippable' (c := ⟨left ++ sym .rightBrace line ::
        others, last, c.errors ++ errors.toArray, c.openBlocks⟩) rfl inside
      rw [stays] at ran
      obtain ⟨more, notBrace⟩ := simple.begins rest (.inl some)
      refine ⟨last', .step more (fun _ => notBrace) ran ?_ .here⟩
      rw [rest, List.length_append]
      simp only
      omega
    · -- outside of blocks the recovery goes past the brace
      intro size c tail inBlock rest short outside
      rw [List.append_assoc, List.singleton_append] at rest
      obtain ⟨last, ran⟩ := recovered rest short
      have passes : ∀ noted, Cursor.synchronize
          ⟨left ++ sym .rightBrace line :: tail, last, noted, c.openBlocks⟩ =
            ⟨tail, .some (sym .rightBrace line), noted, c.openBlocks⟩ :=
        fun _ => synchronize_past skippable' rfl rfl (.inl outside)
      rw [passes] at ran
      obtain ⟨more, notBrace⟩ := simple.begins rest (.inl some)
      refine ⟨_, .step more (fun _ => notBrace) ran ?_ .here⟩
      rw [rest, List.length_append, List.length_cons]
      simp only
      omega

end Stands

end Parse

end TernLang
