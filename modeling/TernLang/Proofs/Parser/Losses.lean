import TernLang.Proofs.Parser.Recovery
import TernLang.Proofs.Parser.Tasks

/-! # Braces that are lost or left over

After a mistake tokens are skipped, and an opening brace may be one of them; or a block is
given up because it is nested too deeply. Its closing brace is then left to the block
around it, and in the end a closing brace is met outside of all blocks.

This is an account of braces. As long as no brace is left over, what a task reads **opens
at least as many blocks as it closes, and more if and only if a brace is lost**
(`tallies_of_noStray`). As long as none is lost, the braces that are left close exactly
the open blocks, so that **none is left over** (`noStray_of_keeps`).
-/

namespace TernLang

def Cursor.passed (c d : Cursor) : List Token :=
  c.rest.take (c.rest.length - d.rest.length)

theorem Cursor.Moves.rest_eq {c d : Cursor} (moves : c.Moves d) :
    c.rest = c.passed d ++ d.rest := by
  obtain ⟨tokens, rest⟩ := moves.suffix
  have length : c.rest.length - d.rest.length = tokens.length := by
    rw [rest, List.length_append]
    omega
  rw [passed, length, rest, List.take_left]

deriving instance DecidableEq for Cursor

namespace Parse

instance (size : Nat) (task call : Task × Cursor) : Decidable (Starts size task call) :=
  inferInstanceAs (Decidable (_ ∈ _))

/-! ## Braces that are lost or left over -/

def stops {α : Type} (step : Parse α) (c : Cursor) : Bool :=
  match step c with
  | .ok _ _ => false
  | .error _ _ => true

/-- The tokens that are skipped where a declaration is left after a mistake. -/
def skipped (size : Nat) : (room : Nat) → Cursor → List Token
  | room + 5, c =>
      match declared size (room + 4) c with
      | .ok _ _ => []
      | .error _ d => d.passed ((declaration size (room + 5)).after c)
  | _, _ => []

namespace Task

/-- An opening brace is lost: it is skipped, or the block behind it is given up. -/
def LosesBrace (size : Nat) : Task → Cursor → Prop
  | declaration room, c => ∃ token ∈ skipped size room c, token.kind = .symbol .leftBrace
  | block room, c => stops (Parse.block size room) c = true
  | _, _ => False

/-- Outside of all blocks a closing brace is met: a declaration starts with it, or it is
skipped. -/
def MeetsStray (size : Nat) : Task → Cursor → Prop
  | declaration room, c => c.openBlocks = 0 ∧
      ∃ token ∈ c.peek :: skipped size room c, token.kind = .symbol .rightBrace
  | _, _ => False

end Task

instance (size : Nat) (task : Task) (c : Cursor) : Decidable (task.LosesBrace size c) :=
  match task with
  | .declaration room => inferInstanceAs (Decidable (∃ token ∈ skipped size room c, _ = _))
  | .block _ => inferInstanceAs (Decidable (_ = true))
  | .declarations _ _ _ | .declared _ | .function _ _ | .statement _ =>
      inferInstanceAs (Decidable False)

/-- Carrying out the task comes to one with the property. -/
def Within (size : Nat) (P : Task → Cursor → Prop) (task : Task × Cursor) : Prop :=
  ∃ call, Reaches size task call ∧ P call.1 call.2

section Within

variable {size : Nat} {P : Task → Cursor → Prop} {task call : Task × Cursor}

/-- Something happens within a call when it happens there or within a call it makes. -/
theorem within_iff : Within size P task ↔
    P task.1 task.2 ∨ ∃ call ∈ task.1.calls size task.2, Within size P call := by
  constructor
  · rintro ⟨call, reaches, holds⟩
    rcases Relation.ReflTransGen.cases_head reaches with rfl | ⟨first, starts, later⟩
    · exact .inl holds
    · exact .inr ⟨first, starts, call, later, holds⟩
  · rintro (holds | ⟨first, starts, call, later, holds⟩)
    · exact ⟨task, .refl, holds⟩
    · exact ⟨call, .head starts later, holds⟩

/-- What happens within a reached call happens within the task. -/
theorem Reaches.within (reaches : Reaches size task call) (within : Within size P call) :
    Within size P task := by
  obtain ⟨last, later, holds⟩ := within
  exact ⟨last, reaches.trans later, holds⟩

/-- Checks that no brace is lost, in calls that are nested less than so deep. -/
def keepsBraces (size : Nat) : (depth : Nat) → Task × Cursor → Bool
  | 0, _ => false
  | depth + 1, (task, c) =>
      !decide (task.LosesBrace size c) && (task.calls size c).all (keepsBraces size depth)

/-- The check of a parse is sound: where it passes, no brace is lost. -/
theorem keeps_of_check {depth : Nat} (checked : keepsBraces size depth task = true) :
    ¬ Within size (Task.LosesBrace size) task := by
  induction depth generalizing task with
  | zero => cases checked
  | succ depth ih =>
      simp only [keepsBraces, Bool.and_eq_true, Bool.not_eq_true', decide_eq_false_iff_not,
        List.all_eq_true] at checked
      rw [within_iff, not_or]
      refine ⟨checked.1, ?_⟩
      rintro ⟨call, mem, lost⟩
      exact ih (checked.2 call mem) lost

end Within

/-! ## Leaving a statement -/

section Skipping

variable {c d : Cursor}

/-- No closing brace is read between the cursors. -/
def ClosesNone (c d : Cursor) : Prop :=
  ∃ tokens, c.rest = tokens ++ d.rest ∧ ∀ token ∈ tokens, token.kind ≠ .symbol .rightBrace

theorem ClosesNone.read (later : ClosesNone c.advance d)
    (notClosing : c.peek.kind ≠ .symbol .rightBrace) : ClosesNone c d := by
  obtain ⟨tokens, rest, others⟩ := later
  by_cases atEnd : c.peek.kind = .endOfInput
  · simp only [Cursor.advance, if_pos atEnd] at rest
    exact ⟨tokens, rest, others⟩
  · refine ⟨c.peek :: tokens, ?_, List.forall_mem_cons.mpr ⟨notClosing, others⟩⟩
    rw [(Cursor.reads_advance atEnd).rest, rest]
    rfl

theorem peek_ne_of_notClosing (inside : 0 < c.openBlocks) (notClosing : ¬ c.atClosingBrace = true) :
    c.peek.kind ≠ .symbol .rightBrace := by
  intro closing
  exact notClosing (by simp [Cursor.atClosingBrace, Cursor.atSymbol, inside, closing])

theorem advance_openBlocks : c.advance.openBlocks = c.openBlocks :=
  (next_travels c).openBlocks

/-- Inside a block, skipping to the next statement passes no closing brace. -/
theorem skipStatement_closesNone (inside : 0 < c.openBlocks) (fuel : Nat) :
    ClosesNone c (c.skipStatement fuel) := by
  induction fuel generalizing c with
  | zero => exact ⟨[], rfl, nofun⟩
  | succ fuel ih =>
      unfold Cursor.skipStatement
      split
      · exact ⟨[], rfl, nofun⟩
      · rename_i goes
        simp only [Bool.or_eq_true, not_or] at goes
        have inside' : 0 < c.advance.openBlocks := by rwa [advance_openBlocks]
        exact (ih inside').read (peek_ne_of_notClosing inside goes.2)

/-- Inside a block no closing brace is skipped. -/
theorem synchronize_closesNone (inside : 0 < c.openBlocks) : ClosesNone c c.synchronize := by
  unfold Cursor.synchronize
  split
  · exact ⟨[], rfl, nofun⟩
  · rename_i notClosing
    have inside' : 0 < c.advance.openBlocks := by rwa [advance_openBlocks]
    exact (skipStatement_closesNone inside' _).read (peek_ne_of_notClosing inside notClosing)

end Skipping

/-! ## What a task opens and closes -/

/-- What the task reads opens at least as many blocks as it closes, the one it is started
in included, and more if and only if a brace is lost. -/
def Tallies (size : Nat) (task : Task × Cursor) : Prop :=
  ∃ n, task.2.Climbs task.1.opened n (task.1.after size task.2) ∧
    (1 ≤ n ↔ Within size (Task.LosesBrace size) task)

section Tallies

variable {size : Nat} {c d e : Cursor} {calls : List (Task × Cursor)} {task : Task × Cursor}

/-- A task that loses a brace only in its calls. -/
theorem within_calls {P : Task → Cursor → Prop} {task : Task} (none : ¬ P task c) :
    Within size P (task, c) ↔ ∃ call ∈ task.calls size c, Within size P call := by
  rw [within_iff, or_iff_right none]

/-- Along the calls of a task the losses add up to the braces left open. -/
theorem Legs.tally (legs : Legs size c calls d) (each : ∀ call ∈ calls, Tallies size call) :
    ∃ n, c.Climbs 0 n d ∧
      (1 ≤ n ↔ ∃ call ∈ calls, Within size (Task.LosesBrace size) call) := by
  induction legs with
  | done last => exact ⟨0, last, by simp⟩
  | call here _ _ ih =>
      obtain ⟨first, others⟩ := List.forall_mem_cons.mp each
      obtain ⟨n, climbs, lost⟩ := first
      obtain ⟨m, climbs', lost'⟩ := ih others
      refine ⟨m + n, (here.trans climbs).trans ?_, ?_⟩
      · simpa using climbs'.raise (k := n)
      · simp only [List.mem_cons, exists_eq_or_imp, ← lost, ← lost']
        omega

theorem Legs.tallies (legs : Legs size task.2 (task.1.calls size task.2) (task.1.after size task.2))
    (opened : task.1.opened = 0) (keeps : ¬ task.1.LosesBrace size task.2)
    (each : ∀ call, Starts size task call → Tallies size call) : Tallies size task := by
  obtain ⟨n, climbs, lost⟩ := legs.tally each
  rw [← opened] at climbs
  exact ⟨n, climbs, lost.trans (within_calls keeps).symm⟩

/-- The cursor behind the declarations of a block, outside of it. -/
def behindBody (size room : Nat) (c : Cursor) : Cursor :=
  (insideBlock (declarations true (declaration size room) size)).after c

/-- A block reads its declarations and then its closing brace, or it is given up behind
its declarations. -/
theorem block_cases (size room : Nat) (c : Cursor) :
    (stops (block size (room + 1)) c = true ∧
        (block size (room + 1)).after c = behindBody size room c) ∨
      ((behindBody size room c).peek.kind = .symbol .rightBrace ∧
        ∃ stmts, block size (room + 1) c = .ok stmts (behindBody size room c).advance) := by
  let step := insideBlock (declarations true (declaration size room) size)
  have unfolded : block size (room + 1) c = (step >>= fun body => do
      expect .rightBrace .braceAfterBlock
      pure body) c := rfl
  rw [behindBody, stops, after, unfolded]
  cases run : step c with
  | error stop e =>
      rw [bind_run_error run, after_error run]
      exact .inl ⟨rfl, rfl⟩
  | ok stmts e =>
      rw [bind_run_ok run, after_ok run]
      by_cases closing : e.atSymbol .rightBrace = true
      · have read : expect .rightBrace .braceAfterBlock e = .ok () e.advance := if_pos closing
        rw [bind_run_ok read]
        exact .inr ⟨Cursor.atSymbol_iff.mp closing, stmts, rfl⟩
      · have stopped : expect .rightBrace .braceAfterBlock e = fail .braceAfterBlock e :=
          if_neg closing
        rw [bind_run_error stopped]
        exact .inl ⟨rfl, rfl⟩

theorem after_insideBlock {α : Type} {step : Parse α} :
    (insideBlock step).after c =
      { step.after { c with openBlocks := c.openBlocks + 1 } with
        openBlocks := (step.after { c with openBlocks := c.openBlocks + 1 }).openBlocks - 1 } := by
  rw [after, insideBlock, after]
  cases step { c with openBlocks := c.openBlocks + 1 } <;> rfl

theorem behindBody_climbs {room n : Nat} {task : Task × Cursor}
    (inside : task ∈ (Task.block (room + 1)).calls size c)
    (climbs : task.2.Climbs task.1.opened n (task.1.after size task.2)) :
    c.Climbs 0 n (behindBody size room c) := by
  cases List.mem_singleton.mp inside
  rw [behindBody, after_insideBlock]
  exact ⟨Nat.sub_eq_of_eq_add climbs.blocks, climbs.read⟩

/-- A block leaves braces open exactly when one is lost within it. -/
theorem block_tallies (room : Nat) (c : Cursor)
    (each : ∀ call, Starts size (.block room, c) call → Tallies size call) :
    Tallies size (.block room, c) := by
  cases room with
  | zero =>
      -- a block without room is given up at once
      exact ⟨1, .refl, by simpa using ⟨(.block 0, c), .refl, rfl⟩⟩
  | succ room =>
      obtain ⟨n, climbs, lost⟩ := each _ (List.mem_singleton_self _)
      have body := behindBody_climbs (List.mem_singleton_self _) climbs
      have raised : c.Climbs 1 (n + 1) (behindBody size room c) := body.raise (k := 1)
      rcases block_cases size room c with ⟨stopped, left⟩ | ⟨closing, stmts, run⟩
      · refine ⟨n + 1, ?_, by simpa using ⟨_, .refl, stopped⟩⟩
        show c.Climbs 1 (n + 1) ((block size (room + 1)).after c)
        rwa [left]
      · refine ⟨n, ?_, lost.trans ?_⟩
        · show c.Climbs 1 n ((block size (room + 1)).after c)
          rw [after_ok run]
          exact raised.trans (Cursor.climbs_advance (by rw [closing]; rfl))
        · have finished : ¬ (Task.block (room + 1)).LosesBrace size c := by
            simp [Task.LosesBrace, stops, run]
          rw [within_calls finished]
          simp [Task.calls]

/-- Where a declaration is left after a mistake, the skipped tokens come behind what was
read of it, and no closing brace of an open block is one of them. -/
theorem skipped_cases {room : Nat} {stop : ParseStop}
    (stopped : declared size (room + 4) c = .error stop d) :
    d.rest = skipped size (room + 5) c ++ ((declaration size (room + 5)).after c).rest ∧
      ((declaration size (room + 5)).after c).openBlocks = d.openBlocks ∧
      (0 < d.openBlocks →
        ∀ token ∈ skipped size (room + 5) c, token.kind ≠ .symbol .rightBrace) := by
  have left : (declaration size (room + 5)).after c = (d.report (reported stop d)).synchronize := by
    rw [declaration_eq_recover]
    exact after_ok (recover_run_error stopped)
  have moves := Cursor.moves_synchronize (d.report (reported stop d))
  have rest : d.rest = d.passed _ ++ (d.report (reported stop d)).synchronize.rest :=
    moves.rest_eq
  rw [skipped, stopped, left]
  refine ⟨rest, moves.openBlocks, fun inside => ?_⟩
  have inside' : 0 < (d.report (reported stop d)).openBlocks := inside
  obtain ⟨tokens, rest', others⟩ := synchronize_closesNone inside'
  have same : d.passed (d.report (reported stop d)).synchronize = tokens :=
    List.append_cancel_right (rest.symm.trans rest')
  simpa only [same] using others

/-- A declaration leaves braces open exactly when one is lost within it. -/
theorem declaration_tallies (room : Nat) (c : Cursor)
    (noStray : ¬ (Task.declaration room).MeetsStray size c)
    (each : ∀ call, Starts size (.declaration room, c) call → Tallies size call) :
    Tallies size (.declaration room, c) := by
  match room with
  | 0 | 1 | 2 | 3 | 4 =>
      refine ⟨0, .refl, ?_⟩
      rw [within_calls]
      · simp [Task.calls]
      · simp [Task.LosesBrace, skipped]
  | room + 5 =>
      obtain ⟨n, climbs, lost⟩ := each _ (List.mem_singleton_self _)
      have climbs : c.Climbs 0 n ((declared size (room + 4)).after c) := climbs
      have calls : (∃ call ∈ (Task.declaration (room + 5)).calls size c,
          Within size (Task.LosesBrace size) call) ↔ 1 ≤ n := by
        simp [Task.calls, lost]
      cases run : declared size (room + 4) c with
      | ok stmt d =>
          have finished : (declaration size (room + 5)).after c = d := by
            rw [declaration_eq_recover]
            exact after_ok (recover_run_ok run)
          -- nothing is skipped behind a declaration that is parsed
          have keeps : ¬ (Task.declaration (room + 5)).LosesBrace size c := by
            simp [Task.LosesBrace, skipped, run]
          refine ⟨n, ?_, ((within_calls keeps).trans calls).symm⟩
          show c.Climbs 0 n ((declaration size (room + 5)).after c)
          rwa [finished, ← after_ok run]
      | error stop d =>
          rw [after_error run] at climbs
          obtain ⟨rest, blocks, inside⟩ := skipped_cases run
          -- inside of a block the recovery stops in front of a closing brace; outside of blocks
          -- such a brace would be a stray one
          have notClosing : ∀ token ∈ skipped size (room + 5) c,
              token.kind ≠ .symbol .rightBrace := by
            rcases Nat.eq_zero_or_pos c.openBlocks with outside | around
            · intro token mem closing
              exact noStray ⟨outside, token, List.mem_cons_of_mem _ mem, closing⟩
            · exact inside (climbs.blocks ▸ around)
          obtain ⟨m, opens, counted⟩ := @openBehind_of_notClosing n _ notClosing
          refine ⟨n + m, climbs.trans ⟨blocks, _, rest, opens⟩, ?_⟩
          rw [within_iff, calls]
          show _ ↔ (∃ token ∈ skipped size (room + 5) c, _) ∨ _
          rw [← counted]
          omega

/-- **A task that meets no stray brace opens at least as many blocks as it closes**, and
more if and only if a brace is lost. -/
theorem tallies_of_noStray (task : Task × Cursor)
    (noStray : ¬ Within size (Task.MeetsStray size) task) : Tallies size task := by
  induction task using Task.induction size with
  | step task ih =>
      have each : ∀ call, Starts size task call → Tallies size call := fun call starts =>
        ih call starts fun stray => noStray (starts.reaches.within stray)
      obtain ⟨task, c⟩ := task
      cases task with
      | declarations inBlock passes room =>
          exact (declarations_legs inBlock passes room c).tallies rfl id each
      | declaration room =>
          exact declaration_tallies room c (fun stray => noStray ⟨_, .refl, stray⟩) each
      | declared room => exact (declared_legs room c).tallies rfl id each
      | function line room => exact (function_legs line room c).tallies rfl id each
      | block room => exact block_tallies room c each
      | statement room => exact (statement_legs room c).tallies rfl id each

/-- A task that meets no stray brace and loses none ends at the depth it is to end at. -/
theorem climbs_of_keeps (noStray : ¬ Within size (Task.MeetsStray size) task)
    (keeps : ¬ Within size (Task.LosesBrace size) task) :
    task.2.Climbs task.1.opened 0 (task.1.after size task.2) := by
  obtain ⟨n, climbs, lost⟩ := tallies_of_noStray task noStray
  have none : n = 0 := by
    rw [← lost] at keeps
    omega
  rwa [none] at climbs

end Tallies

/-! ## Nothing is left over -/

/-- The braces that are left close exactly the open blocks, and that behind whose brace
the task is started. -/
def Level (task : Task × Cursor) : Prop :=
  openBehind (task.2.openBlocks + task.1.opened) task.2.rest = some 0

section Level

variable {size : Nat} {c d : Cursor} {calls : List (Task × Cursor)} {task : Task × Cursor}

/-- Passing matched braces keeps the rest of the text matched. -/
theorem climbs_level {n m : Nat} (climbs : c.Climbs n m d)
    (level : openBehind (c.openBlocks + n) c.rest = some 0) :
    openBehind (d.openBlocks + m) d.rest = some 0 := by
  have raised := (climbs.raise (k := c.openBlocks)).rest
  rwa [Nat.add_comm n, level, Nat.add_comm m, ← climbs.blocks, eq_comm] at raised

/-- No call of a task on matched text meets a stray brace. -/
theorem Legs.noStray (legs : Legs size c calls d) (level : openBehind c.openBlocks c.rest = some 0)
    (each : ∀ call ∈ calls, Level call → ¬ Within size (Task.MeetsStray size) call)
    (keeps : ∀ call ∈ calls, ¬ Within size (Task.LosesBrace size) call) :
    ∀ call ∈ calls, ¬ Within size (Task.MeetsStray size) call := by
  induction legs with
  | done _ => nofun
  | @call c d e task calls here _ _ ih =>
      obtain ⟨first, others⟩ := List.forall_mem_cons.mp each
      obtain ⟨keepsFirst, keepsOthers⟩ := List.forall_mem_cons.mp keeps
      have start : Level (task, d) := climbs_level here level
      have noStray := first start
      have behind := climbs_level (climbs_of_keeps noStray keepsFirst) start
      exact List.forall_mem_cons.mpr ⟨noStray, ih behind others keepsOthers⟩

/-- Outside of all blocks no declaration starts with a closing brace, and none is skipped
behind a declaration that lost no brace. -/
theorem declaration_noStray (room : Nat) (level : Level (.declaration room, c))
    (keeps : ¬ Within size (Task.LosesBrace size) (.declaration room, c))
    (each : ∀ call ∈ (Task.declaration room).calls size c,
      ¬ Within size (Task.MeetsStray size) call) :
    ¬ (Task.declaration room).MeetsStray size c := by
  rintro ⟨outside, token, mem, closing⟩
  have balanced : openBehind c.openBlocks c.rest = some 0 := level
  rw [outside] at balanced
  rcases List.mem_cons.mp mem with rfl | mem
  · rw [Cursor.rest_eq_peek_cons (by rw [closing]; nofun), openBehind_cons, closing] at balanced
    cases balanced
  · match room with
    | room + 5 =>
        have attempt : Starts size (.declaration (room + 5), c) (.declared (room + 4), c) :=
          List.mem_singleton_self _
        cases run : declared size (room + 4) c with
        | ok stmt d => simp [skipped, run] at mem
        | error stop d =>
            have read := climbs_of_keeps (each _ attempt) fun lost =>
              keeps (attempt.reaches.within lost)
            have read : c.Climbs 0 0 ((declared size (room + 4)).after c) := read
            rw [after_error run] at read
            obtain ⟨rest, -, -⟩ := skipped_cases run
            rw [read.rest, rest] at balanced
            refine notClosing_of_outside (by rw [balanced]; nofun) ?_ token mem closing
            exact fun token mem opening => keeps ⟨_, .refl, token, mem, opening⟩

/-- **Where no brace is lost, none is left over**, if the braces that are left close
exactly the open blocks. -/
theorem noStray_of_keeps (task : Task × Cursor) (level : Level task)
    (keeps : ¬ Within size (Task.LosesBrace size) task) :
    ¬ Within size (Task.MeetsStray size) task := by
  induction task using Task.induction size with
  | step task ih =>
      have keepsCalls : ∀ call, Starts size task call → ¬ Within size (Task.LosesBrace size) call :=
        fun call starts lost => keeps (starts.reaches.within lost)
      have each : ∀ call, Starts size task call → Level call →
          ¬ Within size (Task.MeetsStray size) call :=
        fun call starts level => ih call starts level (keepsCalls call starts)
      obtain ⟨task, c⟩ := task
      suffices calls : (∀ call ∈ task.calls size c, ¬ Within size (Task.MeetsStray size) call) ∧
          ¬ task.MeetsStray size c by
        rw [within_calls calls.2]
        rintro ⟨call, starts, stray⟩
        exact calls.1 call starts stray
      cases task with
      | declarations inBlock passes room =>
          exact ⟨(declarations_legs inBlock passes room c).noStray level each keepsCalls, id⟩
      | declared room => exact ⟨(declared_legs room c).noStray level each keepsCalls, id⟩
      | function line room =>
          exact ⟨(function_legs line room c).noStray level each keepsCalls, id⟩
      | statement room => exact ⟨(statement_legs room c).noStray level each keepsCalls, id⟩
      | block room =>
          refine ⟨fun call starts => each call starts ?_, id⟩
          match room with
          | room + 1 =>
              cases List.mem_singleton.mp starts
              exact level
      | declaration room =>
          have noStray : ∀ call ∈ (Task.declaration room).calls size c,
              ¬ Within size (Task.MeetsStray size) call := by
            intro call starts
            refine each call starts ?_
            match room with
            | room + 5 =>
                cases List.mem_singleton.mp starts
                exact level
          exact ⟨noStray, declaration_noStray room level keeps noStray⟩

end Level

end Parse

end TernLang
