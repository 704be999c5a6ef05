import Mathlib.Tactic.IntervalCases
import TernLang.Proofs.Parser.Losses

/-! # Blocks end at their own braces

In balanced tokens every block is meant to end at the brace that matches the one behind
which it starts, whatever mistakes there are, and outside of blocks no closing brace is
left. **This holds as long as no opening brace is lost** (`blocks_matched`): none is
skipped where a statement is left after a mistake, and every block that is started is
finished. A brace that is lost leaves its closing brace to the block around it, which then
ends too early.
-/

namespace TernLang

open Grammar (sym ident)

namespace Parse

section Programs

variable {size room : Nat} {c : Cursor} {tokens : List Token}

/-- Outside of all blocks declarations are read up to the end. -/
theorem declarations_atEnd (enough : 5 ≤ room) {n : Nat} (fits : c.rest.length ≤ n)
    (outside : c.openBlocks = 0) :
    ((declarations false (declaration size room) n).after c).peek.kind = .endOfInput := by
  let E : Excerpt := ⟨[], #[], 0⟩
  have recovers : Recovers E 0 (declaration size room) (declaration size room) :=
    declaration_recovers ⟨Nat.zero_le _, Nat.zero_le _⟩ (fun _ _ tail => by cases tail) room
  induction n generalizing c with
  | zero =>
      show c.peek.kind = .endOfInput
      have none : c.rest = [] := List.eq_nil_of_length_eq_zero (Nat.le_zero.mp fits)
      rw [Cursor.peek, none]
  | succ n ih =>
      by_cases atEnd : c.peek.kind = .endOfInput
      · have stays : declarations false (declaration size room) (n + 1) c = .ok [] c :=
          declarations_stop (by simp [atEnd])
        rwa [after_ok stays]
      · obtain ⟨stmt, d, run⟩ := declaration_ok size enough c
        have less := recovers.reads c stmt d run atEnd (by simp [Cursor.atClosingBrace, outside])
        have later : (declarations false (declaration size room) (n + 1)).after c =
            (declarations false (declaration size room) n).after d := by
          show (Parse.after (if _ then _ else _) c) = _
          rw [if_neg (by simpa using atEnd), after_bind_ok run, after_bind_pure]
        rw [later]
        exact ih (by omega) ((recovers.travels.ok run).openBlocks.trans outside)

/-- Without room for a declaration none is read. -/
theorem keeps_of_noRoom (small : room < 5) (passes : Nat) :
    ¬ Within size (Task.LosesBrace size) (.declarations false passes room, c) := by
  have none : ¬ Within size (Task.LosesBrace size) (.declaration room, c) := by
    interval_cases room <;> (rw [within_iff]; simp [Task.LosesBrace, skipped, Task.calls])
  have stopped : ∃ stop d, declaration size room c = .error stop d := by
    interval_cases room <;> exact ⟨_, _, rfl⟩
  obtain ⟨stop, d, run⟩ := stopped
  rw [within_calls id]
  rintro ⟨call, mem, lost⟩
  cases passes with
  | zero => cases mem
  | succ passes =>
      rw [Task.calls, behind, run] at mem
      split at mem
      · cases mem
      · cases List.mem_singleton.mp mem
        exact none lost

/-- Every block starts right behind an opening brace. -/
theorem Starts.braced {task call : Task × Cursor} (starts : Starts size task call) :
    call.1.Braced call.2 := by
  obtain ⟨task, d⟩ := task
  cases task with
  | declarations inBlock passes room =>
      exact (declarations_legs inBlock passes room d).braced _ starts
  | declared room => exact (declared_legs room d).braced _ starts
  | function line room => exact (function_legs line room d).braced _ starts
  | statement room => exact (statement_legs room d).braced _ starts
  | block room =>
      match room with
      | room + 1 =>
          cases List.mem_singleton.mp starts
          exact .inl rfl
  | declaration room =>
      match room with
      | room + 5 =>
          cases List.mem_singleton.mp starts
          exact .inl rfl

/-- A block that is finished ends at the brace that matches its own. -/
theorem block_matched {stmts : List Stmt} {d : Cursor}
    (noStray : ¬ Within size (Task.MeetsStray size) (.block room, c))
    (keeps : ¬ Within size (Task.LosesBrace size) (.block room, c))
    (run : block size room c = .ok stmts d) :
    ∃ body line, c.rest = body ++ sym .rightBrace line :: d.rest ∧ Balanced body := by
  cases room with
  | zero => cases run
  | succ room =>
      rcases block_cases size room c with ⟨stopped, -⟩ | ⟨closing, _, finished⟩
      · simp [stops, run] at stopped
      · rw [run] at finished
        cases finished
        have inside : Starts size (.block (room + 1), c)
            (.declarations true size room, { c with openBlocks := c.openBlocks + 1 }) :=
          List.mem_singleton_self _
        have climbs := climbs_of_keeps (fun stray => noStray (inside.reaches.within stray))
          fun lost => keeps (inside.reaches.within lost)
        obtain ⟨body, rest, balanced⟩ := (behindBody_climbs inside climbs).read
        refine ⟨body, (behindBody size room c).peek.line, ?_, balanced⟩
        rw [rest, (reads_kind closing (by simp)).rest]
        rfl

/-- What is left behind an end of input that comes last holds no braces. -/
theorem openBehind_atEnd {n : Nat} {read : List Token} (rest : tokens = read ++ c.rest)
    (ending : ∀ token ∈ tokens.dropLast, token.kind ≠ .endOfInput)
    (atEnd : c.peek.kind = .endOfInput) : openBehind n c.rest = some n := by
  cases left : c.rest with
  | nil => rfl
  | cons token others =>
      have first : c.peek = token := by rw [Cursor.peek, left]
      have last : others = [] := by
        by_contra more
        refine ending token ?_ (first ▸ atEnd)
        rw [rest, left, List.dropLast_append_of_ne_nil (List.cons_ne_nil _ _),
          List.dropLast_cons_of_ne_nil more]
        simp
      rw [last, openBehind_cons, ← first, atEnd]
      rfl

end Programs

end Parse

open Parse

/-- The parse of the tokens comes to carry out the task at the cursor. -/
def Visits (room : Nat) (tokens : List Token) (task : Task) (c : Cursor) : Prop :=
  Reaches tokens.length (.declarations false tokens.length room, Cursor.start tokens) (task, c)

/-- The parse of the tokens loses no opening brace. -/
def KeepsBraces (room : Nat) (tokens : List Token) : Prop :=
  ∀ task c, Visits room tokens task c → ¬ task.LosesBrace tokens.length c

/-- In the parse of the tokens every block and every body of a function that is finished
ends at the brace that matches the one it starts behind, and outside of all blocks no
closing brace is met. -/
structure RespectsBlocks (room : Nat) (tokens : List Token) : Prop where
  matched : ∀ {left c stmts d}, Visits room tokens (.block left) c →
    block tokens.length left c = .ok stmts d →
    ∃ opening body closing, c.last = some (sym .leftBrace opening) ∧
      c.rest = body ++ sym .rightBrace closing :: d.rest ∧ Balanced body
  noStray : ∀ {task c}, Visits room tokens task c → ¬ task.MeetsStray tokens.length c

section Programs

variable {room : Nat} {tokens : List Token}

/-- The parse of the whole program comes to no place that loses a brace. -/
theorem KeepsBraces.within (keeps : KeepsBraces room tokens) :
    ¬ Within tokens.length (Task.LosesBrace tokens.length)
      (.declarations false tokens.length room, Cursor.start tokens) := by
  rintro ⟨call, visits, lost⟩
  exact keeps call.1 call.2 visits lost

/-- Nor does it come to a place that meets a stray brace. -/
theorem RespectsBlocks.within (respects : RespectsBlocks room tokens) :
    ¬ Within tokens.length (Task.MeetsStray tokens.length)
      (.declarations false tokens.length room, Cursor.start tokens) := by
  rintro ⟨call, visits, stray⟩
  exact respects.noStray visits stray

/-- With matching braces, a parse that loses none of them respects the blocks. -/
theorem KeepsBraces.respects (keeps : KeepsBraces room tokens) (balanced : Balanced tokens) :
    RespectsBlocks room tokens := by
  have level : Level (.declarations false tokens.length room, Cursor.start tokens) := balanced
  have noStray := noStray_of_keeps _ level keeps.within
  constructor
  · intro left c stmts d visits run
    have opened : ∃ line, c.last = some (sym .leftBrace line) := by
      rcases Relation.ReflTransGen.cases_tail visits with same | ⟨before, -, starts⟩
      · cases same
      · exact starts.braced.resolve_left nofun
    obtain ⟨opening, opened⟩ := opened
    obtain ⟨body, closing, rest, inner⟩ := block_matched
      (fun stray => noStray (Reaches.within visits stray))
      (fun lost => keeps.within (Reaches.within visits lost)) run
    exact ⟨opening, body, closing, opened, rest, inner⟩
  · exact fun visits stray => noStray ⟨_, visits, stray⟩

/-- And a parse that respects the blocks has lost no brace. -/
theorem RespectsBlocks.keeps (respects : RespectsBlocks room tokens) (balanced : Balanced tokens)
    (ending : ∀ token ∈ tokens.dropLast, token.kind ≠ .endOfInput) : KeepsBraces room tokens := by
  suffices none : ¬ Within tokens.length (Task.LosesBrace tokens.length)
      (.declarations false tokens.length room, Cursor.start tokens) by
    exact fun task c visits lost => none ⟨(task, c), visits, lost⟩
  by_cases enough : 5 ≤ room
  · obtain ⟨n, climbs, lost⟩ := tallies_of_noStray _ respects.within
    have atEnd := @declarations_atEnd tokens.length room (Cursor.start tokens) enough
      tokens.length (Nat.le_refl _) rfl
    obtain ⟨read, rest, -⟩ := climbs.read
    have all := climbs.rest.symm.trans balanced
    rw [openBehind_atEnd rest ending atEnd] at all
    cases all
    rw [← lost]
    exact nofun
  · exact keeps_of_noRoom (Nat.lt_of_not_le enough) _

end Programs

/-- **Blocks end at their own braces as long as no brace is lost.** In balanced tokens,
whatever mistakes there are, every block and every body of a function then ends at the
brace that matches its own, and outside of all blocks no closing brace is met. If there is
no end of input before the last token, this is the only case: a brace that is lost leaves
another one over. -/
theorem blocks_matched {tokens : List Token} (balanced : Balanced tokens) (room : Nat) :
    (KeepsBraces room tokens → RespectsBlocks room tokens) ∧
    ((∀ token ∈ tokens.dropLast, token.kind ≠ .endOfInput) →
      RespectsBlocks room tokens → KeepsBraces room tokens) :=
  ⟨fun keeps => keeps.respects balanced,
    fun ending respects => respects.keeps balanced ending⟩

/-- In `{ ; } a;` the mistake loses no brace: the block ends at its own brace, and what
stands behind it is kept. -/
theorem blocks_matched_semicolon :
    let tokens := [sym .leftBrace 1, sym .semicolon 1, sym .rightBrace 1, ident "a" 1,
      sym .semicolon 1, ⟨.endOfInput, 1⟩]
    let mistake : SyntaxError := ⟨.missing .expression, sym .semicolon 1⟩
    parse 40 tokens = ⟨[.block [] 1, .expression (.var "a" 1) 1], [mistake]⟩ ∧
      Balanced tokens ∧ KeepsBraces 40 tokens ∧ RespectsBlocks 40 tokens := by
  intro tokens mistake
  have balanced : Balanced tokens := by decide
  have checked : keepsBraces tokens.length 40
      (.declarations false tokens.length 40, Cursor.start tokens) = true := by decide +kernel
  have keeps : KeepsBraces 40 tokens := fun task c visits lost =>
    keeps_of_check checked ⟨(task, c), visits, lost⟩
  exact ⟨rfl, balanced, keeps, (blocks_matched balanced 40).1 keeps⟩

/-- In `{ ) { } }` the inner brace is skipped, so the block ends at the brace that closes
the inner one, and its own is left over. -/
theorem skipped_brace_ends_block :
    let tokens := [sym .leftBrace 1, sym .rightParen 1, sym .leftBrace 1, sym .rightBrace 1,
      sym .rightBrace 1, ⟨.endOfInput, 1⟩]
    let mistake (found : Symbol) : SyntaxError := ⟨.missing .expression, sym found 1⟩
    Balanced tokens ∧
      parse 40 tokens = ⟨[.block [] 1], [mistake .rightParen, mistake .rightBrace]⟩ ∧
      ¬ RespectsBlocks 40 tokens := by
  intro tokens mistake
  refine ⟨by decide, rfl, fun respects => ?_⟩
  let c : Cursor := ⟨[sym .rightBrace 1, ⟨.endOfInput, 1⟩], some (sym .rightBrace 1),
    #[mistake .rightParen], 0⟩
  have behind : Starts tokens.length (.declarations false tokens.length 40, Cursor.start tokens)
      (.declarations false 5 40, c) := by decide +kernel
  have left : Starts tokens.length (.declarations false 5 40, c) (.declaration 40, c) := by
    decide +kernel
  have visits : Visits 40 tokens (.declaration 40) c := behind.reaches.trans left.reaches
  exact respects.noStray visits ⟨rfl, c.peek, List.mem_cons_self, rfl⟩

end TernLang
