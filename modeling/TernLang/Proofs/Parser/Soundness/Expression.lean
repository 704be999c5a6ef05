import TernLang.Proofs.Parser.Reading

/-! # What is accepted as an expression

**An expression that is parsed without a mistake is one of the grammar**: the
tokens that were read are a phrase of the level, and the tree is theirs
(`expression_yields`). A step that notes a mistake and goes on is excluded by
counting the mistakes: they never become fewer.

The loops need their bound `size` here. A list of arguments that ended because
`size` was used up would end with a comma; but then no token is left, and the
closing parenthesis is missing.
-/

namespace TernLang

open Grammar

/-! ## Phrases that are variables -/

namespace Grammar

theorem Repetition.eq_of_var {level : Level} {left tree : Expr} {tokens : List Token}
    {name : String} {line : Nat} :
    Repetition level left tokens tree → tree = .var name line → left = .var name line ∧ tokens = []
  | .done, same => ⟨same, rfl⟩
  | .logical _ others, same => absurd (others.eq_of_var same).1 (by simp)
  | .binary _ others, same => absurd (others.eq_of_var same).1 (by simp)
  | .call _ others, same => absurd (others.eq_of_var same).1 (by simp)
  | .member others, same => absurd (others.eq_of_var same).1 (by simp)
  | .index _ others, same => absurd (others.eq_of_var same).1 (by simp)
  | .slice _ _ others, same => absurd (others.eq_of_var same).1 (by simp)

/-- Only a name alone has a variable as its tree. -/
theorem Expression.eq_of_var {level : Level} {tree : Expr} {tokens : List Token} {name : String}
    {line : Nat} :
    Expression level tokens tree → tree = .var name line → tokens = [ident name line]
  | .ofDisjunction inner, same => inner.eq_of_var same
  | .repetition _ first others, same => by
      obtain ⟨left, rfl⟩ := others.eq_of_var same
      rw [List.append_nil]
      exact first.eq_of_var left
  | .ofCall inner, same => inner.eq_of_var same
  | .name, same => by
      cases same
      rfl

/-- One more element in front of the elements of a list. -/
theorem Elements.cons {tokens others : List Token} {tree : Expr} {trees : List Expr} {comma : Nat}
    (first : Expression .assignment tokens tree) (rest : Elements others trees) :
    Elements (tokens ++ sym .comma comma :: others) (tree :: trees) := by
  cases rest with
  | none => exact .comma (.last first)
  | some items => exact .some (.more first items)
  | comma items =>
      rw [← List.cons_append, ← List.append_assoc]
      exact .comma (.more first items)

end Grammar

namespace Parse

/-- Where `step` succeeds without noting a mistake, it has read a phrase of
`phrase`. At most `size` tokens are left when it starts. -/
def Yields {α : Type} (size : Nat) (step : Parse α) (phrase : List Token → α → Prop) : Prop :=
  ∀ c a d, step c = .ok a d → d.errors.size ≤ c.errors.size → c.rest.length ≤ size →
    ∃ tokens, c.Reads tokens d ∧ phrase tokens a

variable {size : Nat} {p : Parse Expr}

theorem tooDeep_yields {α : Type} {phrase : List Token → α → Prop} :
    Yields size tooDeep phrase := by
  intro c a d run
  cases run

/-! ## Loops -/

/-- The operators of one level: each one that is read continues the phrase. -/
theorem chain_yields {level : Level} {γ : Type} {pick : TokenKind → Option γ}
    {join : Expr → Token → γ → Expr → Expr} (travels : p.Travels)
    (operand : Yields size p (Expression level.tighter))
    (ends : pick .endOfInput = none)
    (continues : ∀ left token op right tokens others tree, pick token.kind = some op →
      Expression level.tighter tokens right → Repetition level (join left token op right) others tree →
      Repetition level left (token :: (tokens ++ others)) tree)
    (passes : Nat) (left : Expr) :
    Yields size (chain pick join p passes left) (Repetition level left) := by
  induction passes generalizing left with
  | zero =>
      intro c tree d run clean short
      obtain ⟨rfl, rfl⟩ := of_pure_ok run
      exact ⟨[], .refl _, .done⟩
  | succ passes ih =>
      intro c tree d run clean short
      replace run := of_peek_bind run
      cases picked : pick c.peek.kind with
      | none =>
          simp only [picked] at run
          obtain ⟨rfl, rfl⟩ := of_pure_ok run
          exact ⟨[], .refl _, .done⟩
      | some op =>
          simp only [picked] at run
          replace run := of_next_bind run
          obtain ⟨right, e, first, run⟩ := of_bind_ok run
          have more : c.peek.kind ≠ .endOfInput := by
            intro atEnd
            simp [atEnd, ends] at picked
          have readOp := Cursor.reads_advance more
          have same := readOp.size_eq
          have shorter := readOp.length_eq
          -- mistakes are never taken back, so neither the operand nor the rest noted one
          have grows := travels.size_le first
          have grows' := (chain_travels travels pick join passes _).size_le run
          obtain ⟨tokens, readRight, phrase⟩ := operand _ _ _ first (by omega) (by omega)
          have shorter' := readRight.length_eq
          obtain ⟨others, readOthers, rest⟩ := ih _ _ _ _ run (by omega) (by omega)
          exact ⟨c.peek :: (tokens ++ others), readOp.trans (readRight.trans readOthers),
            continues _ _ _ _ _ _ _ picked phrase rest⟩

/-- An operand and the repetition behind it are a phrase of the level. -/
theorem repetition_yields {level : Level} (repeats : level.repeats = true)
    {loop : Expr → Parse Expr} (travels : p.Travels) (loopTravels : ∀ left, (loop left).Travels)
    (operand : Yields size p (Expression level.tighter))
    (others : ∀ left, Yields size (loop left) (Repetition level left)) :
    Yields size (p >>= loop) (Expression level) := by
  intro c tree d run clean short
  obtain ⟨left, e, first, run⟩ := of_bind_ok run
  have grows := travels.size_le first
  have grows' := (loopTravels left).size_le run
  obtain ⟨tokens, readLeft, phrase⟩ := operand _ _ _ first (by omega) short
  have shorter := readLeft.length_eq
  obtain ⟨more, readOthers, rest⟩ := others left _ _ _ run (by omega) (by omega)
  exact ⟨tokens ++ more, readLeft.trans readOthers, .repetition repeats phrase rest⟩

/-- The arguments of a call. If `passes` is used up, no token is left. -/
theorem arguments_yields (travels : p.Travels)
    (argument : Yields size p (Expression .assignment)) (passes : Nat) (before : List Expr)
    {c d : Cursor} {values : List Expr} (run : arguments p passes before c = .ok values d)
    (clean : d.errors.size ≤ c.errors.size) (short : c.rest.length ≤ size)
    (bounded : c.rest.length ≤ passes) :
    d.rest = [] ∨ ∃ tokens trees, c.Reads tokens d ∧ Items tokens trees ∧
      values = before ++ trees ∧ values.length ≤ maxArguments := by
  induction passes generalizing before c with
  | zero =>
      obtain ⟨rfl, rfl⟩ := of_pure_ok run
      exact .inl (List.eq_nil_of_length_eq_zero (by omega))
  | succ passes ih =>
      rw [arguments] at run
      split at run
      · -- the argument is one too many, which is noted and never taken back
        replace run := of_peek_bind run
        obtain ⟨_, e, noted, run⟩ := of_bind_ok run
        have more : e.errors.size = c.errors.size + 1 := by
          cases noted
          simp [Cursor.report]
        obtain ⟨value, e', first, run⟩ := of_bind_ok run
        obtain ⟨comma, e'', accepted, run⟩ := of_bind_ok run
        have grows := travels.size_le first
        have grows' := (accept_travels .comma).size_le accepted
        have grows'' : e''.errors.size ≤ d.errors.size := by
          split at run
          · exact (arguments_travels travels passes _).size_le run
          · obtain ⟨-, rfl⟩ := of_pure_ok run
            exact Nat.le_refl _
        omega
      · rename_i few
        obtain ⟨value, e, first, run⟩ := of_bind_ok run
        obtain ⟨comma, e', accepted, run⟩ := of_bind_ok run
        have grows := travels.size_le first
        have grows' := (accept_travels .comma).size_le accepted
        cases comma with
        | false =>
            obtain rfl := of_accept_false accepted
            obtain ⟨rfl, rfl⟩ := of_pure_ok run
            obtain ⟨tokens, reads, phrase⟩ := argument _ _ _ first clean short
            refine .inr ⟨tokens, [value], reads, .last phrase, rfl, ?_⟩
            simp only [List.length_append, List.length_singleton]
            omega
        | true =>
            obtain ⟨line, readComma⟩ := of_accept_true accepted
            have grows'' := (arguments_travels travels passes _).size_le run
            obtain ⟨tokens, reads, phrase⟩ := argument _ _ _ first (by omega) short
            have shorter := reads.length_eq
            have shorter' := readComma.length_eq
            simp only [List.length_singleton] at shorter'
            -- the parser stops at the end of the input, or has read the other arguments
            rcases ih (before ++ [value]) run (by omega) (by omega) (by omega) with
              ended | ⟨others, trees, readOthers, items, rfl, atMost⟩
            · exact .inl ended
            · refine .inr ⟨tokens ++ sym .comma line :: others, value :: trees,
                reads.trans (readComma.trans readOthers), .more phrase items, ?_, atMost⟩
              simp

theorem finishCall_yields (travels : p.Travels)
    (argument : Yields size p (Expression .assignment)) (callee : Expr) (line : Nat) :
    Yields size (finishCall p size callee line) fun tokens tree =>
      ∃ inner arguments close, Arguments inner arguments ∧
        tokens = inner ++ [sym .rightParen close] ∧ tree = .call callee arguments line := by
  intro c tree d run clean short
  replace run := of_at_bind run
  split at run
  · obtain ⟨values, _, none, run⟩ := of_bind_ok run
    obtain ⟨rfl, rfl⟩ := of_pure_ok none
    obtain ⟨_, e, close, run⟩ := of_bind_ok run
    obtain ⟨rfl, rfl⟩ := of_pure_ok run
    obtain ⟨closeLine, readClose⟩ := of_expect_ok close
    exact ⟨_, readClose, [], [], closeLine, .none, rfl, rfl⟩
  · obtain ⟨values, e, some, run⟩ := of_bind_ok run
    obtain ⟨_, e', close, run⟩ := of_bind_ok run
    obtain ⟨rfl, rfl⟩ := of_pure_ok run
    obtain ⟨closeLine, readClose⟩ := of_expect_ok close
    have same := readClose.size_eq
    rcases arguments_yields travels argument size [] some (by omega) short short with
      ended | ⟨tokens, trees, reads, items, all, atMost⟩
    · -- the parenthesis that was read cannot come after the last token
      have left := readClose.rest
      rw [ended] at left
      cases left
    · rw [List.nil_append] at all
      subst all
      exact ⟨_, reads.trans readClose, tokens, values, closeLine, .some items atMost, rfl, rfl⟩

theorem finishSlice_yields (bound : Yields size p (Expression .assignment)) (target : Expr)
    (first : Option Expr) (line : Nat) :
    Yields size (finishSlice p target first line) fun tokens tree =>
      ∃ inner last close, Bound inner last ∧ tokens = inner ++ [sym .rightBracket close] ∧
        tree = .slice target first last line := by
  intro c tree d run clean short
  replace run := of_at_bind run
  split at run
  · obtain ⟨last, _, none, run⟩ := of_bind_ok run
    obtain ⟨rfl, rfl⟩ := of_pure_ok none
    obtain ⟨_, e, close, run⟩ := of_bind_ok run
    obtain ⟨rfl, rfl⟩ := of_pure_ok run
    obtain ⟨closeLine, readClose⟩ := of_expect_ok close
    exact ⟨_, readClose, [], .none, closeLine, .none, rfl, rfl⟩
  · obtain ⟨last, e, given, run⟩ := of_bind_ok run
    obtain ⟨value, rfl, parsed⟩ := of_map_ok given
    obtain ⟨_, e', close, run⟩ := of_bind_ok run
    obtain ⟨rfl, rfl⟩ := of_pure_ok run
    obtain ⟨closeLine, readClose⟩ := of_expect_ok close
    have same := readClose.size_eq
    obtain ⟨tokens, reads, phrase⟩ := bound _ _ _ parsed (by omega) short
    exact ⟨_, reads.trans readClose, tokens, _, closeLine, .some phrase, rfl, rfl⟩

/-- What stands between the brackets of an access, with the closing one. -/
inductive Access (target : Expr) (line : Nat) : List Token → Expr → Prop
  | index {tokens position close} : Expression .assignment tokens position →
      Access target line (tokens ++ [sym .rightBracket close]) (.index target position line)
  | slice {tokens first colon tokens' last close} : Bound tokens first → Bound tokens' last →
      Access target line (tokens ++ sym .colon colon :: (tokens' ++ [sym .rightBracket close]))
        (.slice target first last line)

theorem finishAccess_yields (travels : p.Travels)
    (bound : Yields size p (Expression .assignment)) (target : Expr) (line : Nat) :
    Yields size (finishAccess p target line) (Access target line) := by
  intro c tree d run clean short
  obtain ⟨colon, e, accepted, run⟩ := of_bind_ok run
  cases colon with
  | true =>
      obtain ⟨colonLine, readColon⟩ := of_accept_true accepted
      have same := readColon.size_eq
      have shorter := readColon.length_eq
      obtain ⟨_, reads, inner, last, close, phrase, rfl, rfl⟩ :=
        finishSlice_yields bound target none line _ _ _ run (by omega) (by omega)
      exact ⟨_, readColon.trans reads, .slice .none phrase⟩
  | false =>
      obtain rfl := of_accept_false accepted
      obtain ⟨first, e, given, run⟩ := of_bind_ok run
      obtain ⟨colon, e', accepted, run⟩ := of_bind_ok run
      have grows := travels.size_le given
      cases colon with
      | true =>
          obtain ⟨colonLine, readColon⟩ := of_accept_true accepted
          have same := readColon.size_eq
          have grows' := (finishSlice_travels travels target (some first) line).size_le run
          obtain ⟨tokens, readFirst, phrase⟩ := bound _ _ _ given (by omega) short
          have shorter := readColon.length_eq
          have shorter' := readFirst.length_eq
          obtain ⟨_, reads, inner, last, close, phrase', rfl, rfl⟩ :=
            finishSlice_yields bound target (some first) line _ _ _ run (by omega) (by omega)
          exact ⟨_, readFirst.trans (readColon.trans reads), .slice (.some phrase) phrase'⟩
      | false =>
          obtain rfl := of_accept_false accepted
          obtain ⟨_, e'', close, run⟩ := of_bind_ok run
          obtain ⟨rfl, rfl⟩ := of_pure_ok run
          obtain ⟨closeLine, readClose⟩ := of_expect_ok close
          have same := readClose.size_eq
          obtain ⟨tokens, readFirst, phrase⟩ := bound _ _ _ given (by omega) short
          exact ⟨_, readFirst.trans readClose, .index phrase⟩

/-- Calls, method names and accesses: each one that is read continues the
phrase. -/
theorem accesses_yields (travels : p.Travels) (inner : Yields size p (Expression .assignment))
    (passes : Nat) (target : Expr) :
    Yields size (accesses p size passes target) (Repetition .call target) := by
  induction passes generalizing target with
  | zero =>
      intro c tree d run clean short
      obtain ⟨rfl, rfl⟩ := of_pure_ok run
      exact ⟨[], .refl _, .done⟩
  | succ passes ih =>
      intro c tree d run clean short
      replace run := of_peek_bind run
      generalize found : c.peek.kind = kind at run
      split at run
      · -- a call
        replace run := of_next_bind run
        obtain ⟨called, e, call, run⟩ := of_bind_ok run
        have readOpen := reads_kind found (by simp)
        have same := readOpen.size_eq
        have shorter := readOpen.length_eq
        have grows := (finishCall_travels travels size target _).size_le call
        have grows' := (accesses_travels travels size passes _).size_le run
        obtain ⟨_, readCall, tokens, arguments, close, phrase, rfl, rfl⟩ :=
          finishCall_yields travels inner target _ _ _ _ call (by omega) (by omega)
        have shorter' := readCall.length_eq
        obtain ⟨others, readOthers, rest⟩ := ih _ _ _ _ run (by omega) (by omega)
        refine ⟨_, readOpen.trans (readCall.trans readOthers), ?_⟩
        simpa using Repetition.call phrase rest
      · -- the name of a method
        replace run := of_next_bind run
        obtain ⟨⟨name, line⟩, e, named, run⟩ := of_bind_ok run
        have readDot := reads_kind found (by simp)
        have readName := of_identifier_ok named
        have same := readDot.size_eq
        have same' := readName.size_eq
        have shorter := readDot.length_eq
        have shorter' := readName.length_eq
        obtain ⟨others, readOthers, rest⟩ := ih _ _ _ _ run (by omega) (by omega)
        exact ⟨_, readDot.trans (readName.trans readOthers), .member rest⟩
      · -- an index or a slice
        replace run := of_next_bind run
        obtain ⟨accessed, e, access, run⟩ := of_bind_ok run
        have readOpen := reads_kind found (by simp)
        have same := readOpen.size_eq
        have shorter := readOpen.length_eq
        have grows := (finishAccess_travels travels target _).size_le access
        have grows' := (accesses_travels travels size passes _).size_le run
        obtain ⟨_, readAccess, phrase⟩ :=
          finishAccess_yields travels inner target _ _ _ _ access (by omega) (by omega)
        have shorter' := readAccess.length_eq
        obtain ⟨others, readOthers, rest⟩ := ih _ _ _ _ run (by omega) (by omega)
        refine ⟨_, readOpen.trans (readAccess.trans readOthers), ?_⟩
        cases phrase with
        | index position => simpa using Repetition.index position rest
        | slice first last => simpa using Repetition.slice first last rest
      · obtain ⟨rfl, rfl⟩ := of_pure_ok run
        exact ⟨[], .refl _, .done⟩

theorem elements_yields (travels : p.Travels) (element : Yields size p (Expression .assignment))
    (passes : Nat) (before : List Expr) :
    Yields size (elements p passes before) fun tokens values =>
      ∃ trees, Elements tokens trees ∧ values = before ++ trees := by
  induction passes generalizing before with
  | zero =>
      intro c values d run clean short
      obtain ⟨rfl, rfl⟩ := of_pure_ok run
      exact ⟨[], .refl _, [], .none, by simp⟩
  | succ passes ih =>
      intro c values d run clean short
      replace run := of_at_bind run
      split at run
      · obtain ⟨rfl, rfl⟩ := of_pure_ok run
        exact ⟨[], .refl _, [], .none, by simp⟩
      · obtain ⟨value, e, first, run⟩ := of_bind_ok run
        obtain ⟨comma, e', accepted, run⟩ := of_bind_ok run
        have grows := travels.size_le first
        cases comma with
        | false =>
            obtain rfl := of_accept_false accepted
            obtain ⟨rfl, rfl⟩ := of_pure_ok run
            obtain ⟨tokens, reads, phrase⟩ := element _ _ _ first clean short
            exact ⟨tokens, reads, [value], .some (.last phrase), rfl⟩
        | true =>
            obtain ⟨line, readComma⟩ := of_accept_true accepted
            have same := readComma.size_eq
            have grows' := (elements_travels travels passes _).size_le run
            obtain ⟨tokens, reads, phrase⟩ := element _ _ _ first (by omega) short
            have shorter := reads.length_eq
            have shorter' := readComma.length_eq
            obtain ⟨others, readOthers, trees, rest, rfl⟩ :=
              ih (before ++ [value]) _ _ _ run (by omega) (by omega)
            exact ⟨_, reads.trans (readComma.trans readOthers), value :: trees,
              rest.cons phrase, by simp⟩

/-! ## Levels -/

/-- A level of operators: an operand, and operators of the level with operands behind them. -/
theorem operators_yields {level : Level} {γ : Type} {pick : TokenKind → Option γ}
    {join : Expr → Token → γ → Expr → Expr} (repeats : level.repeats = true)
    (travels : p.Travels) (operand : Yields size p (Expression level.tighter))
    (ends : pick .endOfInput = none)
    (continues : ∀ left token op right tokens others tree, pick token.kind = some op →
      Expression level.tighter tokens right → Repetition level (join left token op right) others tree →
      Repetition level left (token :: (tokens ++ others)) tree) :
    Yields size (do chain pick join p size (← p)) (Expression level) :=
  repetition_yields repeats travels (chain_travels travels _ _ size) operand
    (chain_yields travels operand ends continues size)

theorem binary_yields {level : Level} {pick : TokenKind → Option BinaryOp}
    (repeats : level.repeats = true)
    (picks : ∀ {kind op}, pick kind = some op ↔ kind = .symbol op.symbol ∧ binaryLevel op = level)
    (travels : p.Travels) (operand : Yields size p (Expression level.tighter)) :
    Yields size (do chain pick joinBinary p size (← p)) (Expression level) := by
  refine operators_yields repeats travels operand ?_ ?_
  · exact Option.eq_none_iff_forall_ne_some.mpr fun op picked => nomatch (picks.mp picked).1
  · rintro left ⟨kind, line⟩ op right tokens others tree picked phrase rest
    obtain ⟨rfl, rfl⟩ := picks.mp picked
    exact .binary phrase rest

theorem logical_yields {level : Level} {pick : TokenKind → Option LogicalOp}
    (repeats : level.repeats = true)
    (picks : ∀ {kind op}, pick kind = some op ↔ kind = .keyword op.keyword ∧ logicalLevel op = level)
    (travels : p.Travels) (operand : Yields size p (Expression level.tighter)) :
    Yields size (do chain pick joinLogical p size (← p)) (Expression level) := by
  refine operators_yields repeats travels operand ?_ ?_
  · exact Option.eq_none_iff_forall_ne_some.mpr fun op picked => nomatch (picks.mp picked).1
  · rintro left ⟨kind, line⟩ op right tokens others tree picked phrase rest
    obtain ⟨rfl, rfl⟩ := picks.mp picked
    exact .logical phrase rest

/-- An assignment whose target is no variable notes a mistake. -/
theorem of_finishAssign_ok {target value tree : Expr} {equals : Token} {c d : Cursor}
    (run : finishAssign target equals value c = .ok tree d)
    (clean : d.errors.size ≤ c.errors.size) :
    c = d ∧ ∃ name line, target = .var name line ∧ tree = .assign name value line := by
  unfold finishAssign at run
  split at run
  · obtain ⟨rfl, rfl⟩ := of_pure_ok run
    exact ⟨rfl, _, _, rfl, rfl⟩
  · cases run
    simp only [Cursor.report, Array.size_push] at clean
    omega

/-- A step of what is no variable notes a mistake. -/
theorem of_finishStep_ok {target tree : Expr} {token : Token} {step : Step} {c d : Cursor}
    (run : finishStep target token step c = .ok tree d)
    (clean : d.errors.size ≤ c.errors.size) :
    c = d ∧ ∃ name line, target = .var name line ∧ tree = .increment name step line := by
  unfold finishStep at run
  split at run
  · obtain ⟨rfl, rfl⟩ := of_pure_ok run
    exact ⟨rfl, _, _, rfl, rfl⟩
  · cases run
    simp only [Cursor.report, Array.size_push] at clean
    omega

mutual

/-- An expression that is accepted is one of the grammar. -/
theorem expression_yields (size : Nat) : ∀ room,
    Yields size (expression size room) (Expression .assignment)
  | 0 => tooDeep_yields
  | room + 1 => assignment_yields size room

theorem assignment_yields (size : Nat) : ∀ room,
    Yields size (assignment size room) (Expression .assignment)
  | 0 => tooDeep_yields
  | room + 1 => by
      intro c tree d run clean short
      obtain ⟨target, e, left, run⟩ := of_bind_ok run
      have grows := (disjunction_travels size room).size_le left
      replace run := of_peek_bind run
      generalize found : e.peek.kind = kind at run
      split at run
      · replace run := of_next_bind run
        obtain ⟨value, e', right, run⟩ := of_bind_ok run
        have readEquals := reads_kind found (by simp)
        have same := readEquals.size_eq
        have shorter := readEquals.length_eq
        have grows' := (assignment_travels size room).size_le right
        have grows'' := (finishAssign_agrees (S := .same False) target e.peek value).travels.size_le
          (by simpa using run)
        -- no mistake was noted, so the target is a variable: a name and nothing else
        obtain ⟨rfl, name, line, rfl, rfl⟩ := of_finishAssign_ok run (by omega)
        obtain ⟨tokens, readTarget, phrase⟩ := disjunction_yields size room _ _ _ left (by omega) short
        have shorter' := readTarget.length_eq
        obtain rfl := phrase.eq_of_var rfl
        obtain ⟨others, readValue, phrase'⟩ :=
          assignment_yields size room _ _ _ right (by omega) (by omega)
        exact ⟨_, readTarget.trans (readEquals.trans readValue), .assign phrase'⟩
      · cases picked : pickStep kind with
        | some step =>
          simp only [picked] at run
          replace run := of_next_bind run
          have isStep := pickStep_iff.mp picked
          have readStep := reads_kind (found.trans isStep) (by simp)
          have same := readStep.size_eq
          have grows' := (finishStep_agrees (S := .same False) target e.peek step).travels.size_le
            (by simpa using run)
          obtain ⟨rfl, name, line, rfl, rfl⟩ := of_finishStep_ok run (by omega)
          obtain ⟨tokens, readTarget, phrase⟩ := disjunction_yields size room _ _ _ left (by omega) short
          obtain rfl := phrase.eq_of_var rfl
          exact ⟨_, readTarget.trans readStep, .increment⟩
        | none =>
          simp only [picked] at run
          obtain ⟨rfl, rfl⟩ := of_pure_ok run
          obtain ⟨tokens, reads, phrase⟩ := disjunction_yields size room _ _ _ left clean short
          exact ⟨tokens, reads, .ofDisjunction phrase⟩

theorem disjunction_yields (size : Nat) : ∀ room,
    Yields size (disjunction size room) (Expression .disjunction)
  | 0 => tooDeep_yields
  | room + 1 =>
      logical_yields rfl pickOr_iff (conjunction_travels size room) (conjunction_yields size room)

theorem conjunction_yields (size : Nat) : ∀ room,
    Yields size (conjunction size room) (Expression .conjunction)
  | 0 => tooDeep_yields
  | room + 1 =>
      logical_yields rfl pickAnd_iff (equality_travels size room) (equality_yields size room)

theorem equality_yields (size : Nat) : ∀ room,
    Yields size (equality size room) (Expression .equality)
  | 0 | 1 => tooDeep_yields
  | room + 2 =>
      binary_yields rfl pickEquality_iff (comparison_travels size room) (comparison_yields size room)

theorem comparison_yields (size : Nat) : ∀ room,
    Yields size (comparison size room) (Expression .comparison)
  | 0 | 1 => tooDeep_yields
  | room + 2 =>
      binary_yields rfl pickComparison_iff (term_travels size room) (term_yields size room)

theorem term_yields (size : Nat) : ∀ room,
    Yields size (term size room) (Expression .term)
  | 0 | 1 => tooDeep_yields
  | room + 2 =>
      binary_yields rfl pickTerm_iff (factor_travels size room) (factor_yields size room)

theorem factor_yields (size : Nat) : ∀ room,
    Yields size (factor size room) (Expression .factor)
  | 0 | 1 => tooDeep_yields
  | room + 2 =>
      binary_yields rfl pickFactor_iff (unary_travels size room) (unary_yields size room)

theorem unary_yields (size : Nat) : ∀ room,
    Yields size (unary size room) (Expression .unary)
  | 0 => tooDeep_yields
  | room + 1 => by
      intro c tree d run clean short
      replace run := of_peek_bind run
      generalize found : c.peek.kind = kind at run
      cases picked : pickUnary kind with
      | some op =>
        simp only [picked] at run
        replace run := of_next_bind run
        obtain ⟨right, e, operand, run⟩ := of_bind_ok run
        obtain ⟨rfl, rfl⟩ := of_pure_ok run
        have readOp := reads_kind (found.trans (pickUnary_iff.mp picked)) (by simp)
        have same := readOp.size_eq
        have shorter := readOp.length_eq
        obtain ⟨tokens, reads, phrase⟩ := unary_yields size room _ _ _ operand (by omega) (by omega)
        exact ⟨_, readOp.trans reads, .unary phrase⟩
      | none =>
        simp only [picked] at run
        obtain ⟨tokens, reads, phrase⟩ := call_yields size room _ _ _ run clean short
        exact ⟨tokens, reads, .ofCall phrase⟩

theorem call_yields (size : Nat) : ∀ room,
    Yields size (call size room) (Expression .call)
  | 0 => tooDeep_yields
  | room + 1 => by
      have travels := bracketed_travels size room
      exact repetition_yields rfl (primary_travels size room) (accesses_travels travels size size)
        (primary_yields size room) (accesses_yields travels (bracketed_yields size room) size)

theorem bracketed_yields (size : Nat) : ∀ room,
    Yields size (bracketed size room) (Expression .assignment)
  | 0 => tooDeep_yields
  | room + 1 => expression_yields size room

theorem primary_yields (size : Nat) : ∀ room,
    Yields size (primary size room) (Expression .primary)
  | 0 => tooDeep_yields
  | room + 1 => by
      intro c tree d run clean short
      replace run := of_peek_bind run
      generalize found : c.peek.kind = kind at run
      have reads : kind ≠ .endOfInput → c.Reads [⟨kind, c.peek.line⟩] c.advance := reads_kind found
      split at run
      -- the last case is a token that starts no expression; seven and eight open a bracket
      case h_9 => cases run
      case h_7 =>
        obtain ⟨inner, e, parsed, run⟩ := of_bind_ok (of_next_bind run)
        obtain ⟨_, e', close, run⟩ := of_bind_ok run
        obtain ⟨rfl, rfl⟩ := of_pure_ok run
        obtain ⟨closeLine, readClose⟩ := of_expect_ok close
        have readOpen := reads (by simp)
        have same := readOpen.size_eq
        have shorter := readOpen.length_eq
        have same' := readClose.size_eq
        obtain ⟨tokens, readInner, phrase⟩ :=
          expression_yields size room _ _ _ parsed (by omega) (by omega)
        exact ⟨_, readOpen.trans (readInner.trans readClose), .grouping phrase⟩
      case h_8 =>
        obtain ⟨values, e, parsed, run⟩ := of_bind_ok (of_next_bind run)
        obtain ⟨_, e', close, run⟩ := of_bind_ok run
        obtain ⟨rfl, rfl⟩ := of_pure_ok run
        obtain ⟨closeLine, readClose⟩ := of_expect_ok close
        have readOpen := reads (by simp)
        have same := readOpen.size_eq
        have shorter := readOpen.length_eq
        have same' := readClose.size_eq
        obtain ⟨tokens, readInner, trees, phrase, rfl⟩ :=
          elements_yields (expression_travels size room) (expression_yields size room) size []
            _ _ _ parsed (by omega) (by omega)
        exact ⟨_, readOpen.trans (readInner.trans readClose), .list phrase⟩
      all_goals
        replace run := of_next_bind run
        obtain ⟨rfl, rfl⟩ := of_pure_ok run
        exact ⟨_, reads (by simp), by constructor⟩

end

end Parse

end TernLang
