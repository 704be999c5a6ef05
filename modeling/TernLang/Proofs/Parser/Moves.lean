import TernLang.Parser.Statement

/-! # What parsing does to the cursor

`Cursor.Moves` says once what a parsing step can do: read tokens, note mistakes,
and do both inside one more block. Whatever holds of these moves holds of every
parsing step. Here it gives that **no noted mistake is ever taken back**
(`Moves.errors_mem`, `Moves.errors_size_le`).
-/

namespace TernLang

/-- The moves of a parser: `c.Moves d` if it can get from `c` to `d` by reading
tokens, noting mistakes and entering and leaving blocks. -/
inductive Cursor.Moves : Cursor → Cursor → Prop
  | here {c} : Moves c c
  | read {c d} : Moves c.advance d → Moves c d
  | note {c d} (error : SyntaxError) : Moves (c.report error) d → Moves c d
  | inside {c d e} : Moves { c with openBlocks := c.openBlocks + 1 } d →
      Moves { d with openBlocks := d.openBlocks - 1 } e → Moves c e

namespace Cursor

/-- Reading a token keeps the mistakes. -/
@[simp] theorem advance_errors (c : Cursor) : c.advance.errors = c.errors := by
  simp only [advance]
  split <;> rfl

theorem Moves.trans {c d e : Cursor} (first : c.Moves d) (second : d.Moves e) : c.Moves e := by
  induction first with
  | here => exact second
  | read _ ih => exact .read (ih second)
  | note error _ ih => exact .note error (ih second)
  | inside inner _ _ ih => exact .inside inner (ih second)

/-- A mistake that was noted stays noted. -/
theorem Moves.errors_mem {c d : Cursor} (moves : c.Moves d) {error : SyntaxError}
    (noted : error ∈ c.errors) : error ∈ d.errors := by
  induction moves with
  | here => exact noted
  | read _ ih => exact ih (by rwa [advance_errors])
  | note error _ ih => exact ih (Array.mem_push_of_mem _ noted)
  | inside _ _ ihInner ih => exact ih (ihInner noted)

/-- The mistakes only grow in number. -/
theorem Moves.errors_size_le {c d : Cursor} (moves : c.Moves d) :
    c.errors.size ≤ d.errors.size := by
  induction moves with
  | here => exact Nat.le_refl _
  | read _ ih => simpa using ih
  | note error _ ih =>
      simp only [report, Array.size_push] at ih
      omega
  | inside _ _ ihInner ih => exact Nat.le_trans ihInner ih

/-- Where no mistake is noted in the end, there was none before. -/
theorem Moves.clean {c d : Cursor} (moves : c.Moves d) (clean : d.errors = #[]) :
    c.errors = #[] := by
  have grows := moves.errors_size_le
  rw [clean] at grows
  exact Array.eq_empty_of_size_eq_zero (Nat.le_zero.mp grows)

/-- The end of input is never read past. -/
theorem Moves.endOfInput_stays {c d : Cursor} (moves : c.Moves d) {line : Nat}
    {tokens : List Token} (ends : c.rest = tokens ++ [⟨.endOfInput, line⟩]) :
    ∃ others, d.rest = others ++ [⟨.endOfInput, line⟩] := by
  induction moves generalizing tokens with
  | here => exact ⟨tokens, ends⟩
  | note error _ ih => exact ih ends
  | inside _ _ ihInner ih =>
      obtain ⟨others, ends'⟩ := ihInner ends
      exact ih ends'
  | @read c d _ ih =>
      by_cases atEnd : c.peek.kind = .endOfInput
      · have stays : c.advance.rest = tokens ++ [⟨.endOfInput, line⟩] := by
          simpa [advance, atEnd] using ends
        exact ih stays
      · cases tokens with
        | nil => simp [peek, ends] at atEnd
        | cons token tokens =>
            have shorter : c.advance.rest = tokens ++ [⟨.endOfInput, line⟩] := by
              simp [advance, atEnd, ends]
            exact ih shorter

theorem moves_skipStatement (fuel : Nat) (c : Cursor) : c.Moves (c.skipStatement fuel) := by
  induction fuel generalizing c with
  | zero => exact .here
  | succ fuel ih =>
      unfold skipStatement
      split
      · exact .here
      · exact .read (ih c.advance)

/-- Leaving a statement only reads tokens. -/
theorem moves_synchronize (c : Cursor) : c.Moves c.synchronize := by
  unfold synchronize
  split
  · exact .here
  · exact .read (moves_skipStatement _ _)

end Cursor

namespace Parse

/-- The cursor that a parsing step leaves behind, however it ends. -/
def after {α : Type} (step : Parse α) (cursor : Cursor) : Cursor :=
  match step cursor with
  | .ok _ d => d
  | .error _ d => d

theorem after_ok {α : Type} {step : Parse α} {c d : Cursor} {a : α} (run : step c = .ok a d) :
    step.after c = d := by
  rw [after, run]

theorem after_error {α : Type} {step : Parse α} {c d : Cursor} {stop : ParseStop}
    (run : step c = .error stop d) : step.after c = d := by
  rw [after, run]

/-- Running two steps one after the other. -/
theorem bind_run {α β : Type} (step : Parse α) (rest : α → Parse β) (c : Cursor) :
    (step >>= rest) c =
      match step c with
      | .ok a d => rest a d
      | .error stop d => .error stop d := by
  show EStateM.bind step rest c = _
  unfold EStateM.bind
  cases step c <;> rfl

theorem bind_run_ok {α β : Type} {step : Parse α} {rest : α → Parse β} {c d : Cursor} {a : α}
    (run : step c = .ok a d) : (step >>= rest) c = rest a d := by
  rw [bind_run, run]

/-- A sequence whose first step succeeds ends as the second does from there. -/
theorem bind_of_ok {α β : Type} {step : Parse α} {rest : α → Parse β} {c d : Cursor} {a : α}
    {result : EStateM.Result ParseStop Cursor β} (first : step c = .ok a d)
    (second : rest a d = result) : (step >>= rest) c = result :=
  (bind_run_ok first).trans second

theorem bind_run_error {α β : Type} {step : Parse α} {rest : α → Parse β} {c d : Cursor}
    {stop : ParseStop} (run : step c = .error stop d) : (step >>= rest) c = .error stop d := by
  rw [bind_run, run]

/-- A sequence of two steps that succeeds has a cursor in the middle. -/
theorem of_bind_ok {α β : Type} {step : Parse α} {rest : α → Parse β} {c e : Cursor} {b : β}
    (run : (step >>= rest) c = .ok b e) :
    ∃ a d, step c = .ok a d ∧ rest a d = .ok b e := by
  rw [bind_run] at run
  cases first : step c with
  | ok a d => exact ⟨a, d, rfl, by simpa [first] using run⟩
  | error stop d => simp [first] at run

theorem map_of_ok {α β : Type} {step : Parse α} {f : α → β} {c d : Cursor} {a : α}
    (run : step c = .ok a d) : (f <$> step) c = .ok (f a) d := by
  rw [map_eq_pure_bind]
  exact bind_of_ok run rfl

theorem of_map_ok {α β : Type} {step : Parse α} {f : α → β} {c d : Cursor} {b : β}
    (run : (f <$> step) c = .ok b d) : ∃ a, f a = b ∧ step c = .ok a d := by
  rw [map_eq_pure_bind] at run
  obtain ⟨a, e, first, last⟩ := of_bind_ok run
  cases last
  exact ⟨a, rfl, first⟩

theorem insideBlock_run_ok {α : Type} {step : Parse α} {c d : Cursor} {a : α}
    (run : step { c with openBlocks := c.openBlocks + 1 } = .ok a d) :
    insideBlock step c = .ok a { d with openBlocks := d.openBlocks - 1 } := by
  rw [insideBlock, run]

theorem insideBlock_run_error {α : Type} {step : Parse α} {c d : Cursor} {stop : ParseStop}
    (run : step { c with openBlocks := c.openBlocks + 1 } = .error stop d) :
    insideBlock step c = .error stop { d with openBlocks := d.openBlocks - 1 } := by
  rw [insideBlock, run]

/-- A step that has succeeded inside a block has done so one block deeper. -/
theorem of_insideBlock_ok {α : Type} {step : Parse α} {c d : Cursor} {a : α}
    (run : insideBlock step c = .ok a d) :
    ∃ e, step { c with openBlocks := c.openBlocks + 1 } = .ok a e ∧
      d = { e with openBlocks := e.openBlocks - 1 } := by
  cases inner : step { c with openBlocks := c.openBlocks + 1 } with
  | ok b e =>
      rw [insideBlock_run_ok inner] at run
      cases run
      exact ⟨e, rfl, rfl⟩
  | error stop e =>
      rw [insideBlock_run_error inner] at run
      cases run

theorem recover_run_ok {α : Type} {step : Parse α} {c d : Cursor} {a : α}
    (run : step c = .ok a d) : recover step c = .ok (some a) d := by
  rw [recover, run]

/-- After a mistake the error is noted and the rest of the statement skipped. -/
theorem recover_run_mistake {α : Type} {step : Parse α} {c d : Cursor} {error : SyntaxError}
    (run : step c = .error (.mistake error) d) :
    recover step c = .ok none (d.report error).synchronize := by
  rw [recover, run]

/-- Nesting too deep is noted like a mistake, at the token it is met at. -/
theorem recover_run_tooDeep {α : Type} {step : Parse α} {c d : Cursor}
    (run : step c = .error .tooDeep d) :
    recover step c = .ok none (d.report ⟨.nestedTooDeeply, d.peek⟩).synchronize := by
  rw [recover, run]

/-- A step either is carried out, or is left after a mistake that is noted. -/
theorem of_recover_ok {α : Type} {step : Parse α} {c d : Cursor} {result : Option α}
    (run : recover step c = .ok result d) :
    (∃ a, result = some a ∧ step c = .ok a d) ∨
      (result = none ∧ ∃ stop error e, step c = .error stop e ∧
        d = (e.report error).synchronize) := by
  cases inner : step c with
  | ok a e =>
      rw [recover_run_ok inner] at run
      cases run
      exact .inl ⟨a, rfl, rfl⟩
  | error stop e =>
      cases stop with
      | mistake error =>
          rw [recover_run_mistake inner] at run
          cases run
          exact .inr ⟨rfl, _, error, e, rfl, rfl⟩
      | tooDeep =>
          rw [recover_run_tooDeep inner] at run
          cases run
          exact .inr ⟨rfl, _, _, e, rfl, rfl⟩

/-- `step` moves the cursor as a parser may, wherever it starts. -/
def Travels {α : Type} (step : Parse α) : Prop :=
  ∀ c : Cursor, c.Moves (step.after c)

/-- A step that succeeds moves on or stays. -/
theorem Travels.ok {α : Type} {step : Parse α} (travels : step.Travels) {c d : Cursor} {a : α}
    (run : step c = .ok a d) : c.Moves d :=
  after_ok run ▸ travels c

theorem Travels.size_le {α : Type} {step : Parse α} (travels : step.Travels) {c d : Cursor}
    {a : α} (run : step c = .ok a d) : c.errors.size ≤ d.errors.size :=
  (travels.ok run).errors_size_le

theorem Travels.error {α : Type} {step : Parse α} (travels : step.Travels) {c d : Cursor}
    {stop : ParseStop} (run : step c = .error stop d) : c.Moves d :=
  after_error run ▸ travels c

theorem Travels.bind {α β : Type} {step : Parse α} {rest : α → Parse β} (first : step.Travels)
    (second : ∀ a, (rest a).Travels) : (step >>= rest).Travels := by
  intro c
  cases run : step c with
  | ok a d =>
      have later : (step >>= rest).after c = (rest a).after d := by
        rw [after, bind_run_ok run, after]
      rw [later]
      exact (first.ok run).trans (second a d)
  | error stop d =>
      rw [after_error (bind_run_error run)]
      exact first.error run

/-- A step that never moves travels. -/
theorem travels_of_stay {α : Type} {step : Parse α} (stays : ∀ c, step.after c = c) :
    step.Travels := by
  intro c
  rw [stays c]
  exact .here

theorem travels_insideBlock {α : Type} {step : Parse α} (travels : step.Travels) :
    (insideBlock step).Travels := by
  intro c
  cases run : step { c with openBlocks := c.openBlocks + 1 } with
  | ok a d =>
      rw [after_ok (insideBlock_run_ok run)]
      exact .inside (travels.ok run) .here
  | error stop d =>
      rw [after_error (insideBlock_run_error run)]
      exact .inside (travels.error run) .here

theorem travels_recover {α : Type} {step : Parse α} (travels : step.Travels) :
    (recover step).Travels := by
  intro c
  cases run : step c with
  | ok a d =>
      rw [after_ok (recover_run_ok run)]
      exact travels.ok run
  | error stop d =>
      cases stop with
      | mistake error =>
          rw [after_ok (recover_run_mistake run)]
          exact (travels.error run).trans (.note error (Cursor.moves_synchronize _))
      | tooDeep =>
          rw [after_ok (recover_run_tooDeep run)]
          exact (travels.error run).trans
            (.note ⟨.nestedTooDeeply, d.peek⟩ (Cursor.moves_synchronize _))

end Parse

end TernLang
