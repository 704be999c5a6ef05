import TernLang.Proofs.Lines
import TernLang.Proofs.Parser.Moves

/-! # Comparing two parses

A `Simulation` relates the cursors of two parses that run side by side and see
the same tokens up to their lines. `Agrees` is the statement that two parsing
steps give related results on related cursors; it has one rule for each way to
build a step. The modules below this one use the rules to show that every
function of the grammar agrees with itself.

A lenient simulation also compares a parse with one that has more room. The
first may then run out of room where the second does not, but only by stopping
as too deep or by noting a mistake that says so.

What is compared may also end before the parse does: nothing is claimed of the results
once the first parse is `Beyond` it, from where it never comes back (`Escapes`).
-/

namespace TernLang

/-- The parser has noted that the program is nested too deeply. -/
def Cursor.Overflowed (cursor : Cursor) : Prop :=
  ∃ error ∈ cursor.errors, error.cause = .nestedTooDeeply

/-- A parser that has run out of room has an error to show for it from then on. -/
theorem Cursor.Overflowed.moves {c d : Cursor} (overflowed : c.Overflowed) (moves : c.Moves d) :
    d.Overflowed := by
  obtain ⟨error, noted, cause⟩ := overflowed
  exact ⟨error, moves.errors_mem noted, cause⟩

namespace Parse

/-- A correspondence between the cursors of two parses. The second one sees the
tokens of the first with their lines renumbered by `lines`; if it is `lenient`,
it may have more room. -/
structure Simulation where
  lines : Nat → Nat
  lenient : Prop
  Related : Cursor → Cursor → Prop
  Beyond : Cursor → Prop
  beyond_moves {c d : Cursor} : Beyond c → c.Moves d → Beyond d
  beyond_leave {c : Cursor} : Beyond c → Beyond { c with openBlocks := c.openBlocks - 1 }
  overflowed {c : Cursor} : lenient → c.Overflowed → Beyond c
  peek {c d : Cursor} : Related c d → d.peek = c.peek.mapLine lines
  advance {c d : Cursor} : Related c d → Beyond c.advance ∨ Related c.advance d.advance
  report {c d : Cursor} (error : SyntaxError) : Related c d →
    Beyond (c.report error) ∨ Related (c.report error) (d.report (error.mapLine lines))
  enter {c d : Cursor} : Related c d →
    Related { c with openBlocks := c.openBlocks + 1 } { d with openBlocks := d.openBlocks + 1 }
  leave {c d : Cursor} : Related c d →
    Related { c with openBlocks := c.openBlocks - 1 } { d with openBlocks := d.openBlocks - 1 }
  resume {c d : Cursor} (error : SyntaxError) : Related c d →
    Beyond (c.report error).synchronize ∨
      Related (c.report error).synchronize (d.report (error.mapLine lines)).synchronize

/-- The result of a step that came beyond what is compared, or ran out of room that the
second parse may have. -/
def Simulation.Escapes (S : Simulation) {α : Type} : EStateM.Result ParseStop Cursor α → Prop
  | .ok _ d => S.Beyond d
  | .error stop d => (S.lenient ∧ stop = .tooDeep) ∨ S.Beyond d

theorem Simulation.escapes_of_after {S : Simulation} {α : Type} {step : Parse α} {c : Cursor}
    (beyond : S.Beyond (step.after c)) : S.Escapes (step c) := by
  unfold Parse.after at beyond
  cases result : step c with
  | ok a d => rw [result] at beyond; exact beyond
  | error stop d => rw [result] at beyond; exact .inr beyond

/-- Nothing escapes a comparison that ends with the parse. -/
theorem Simulation.not_escapes {S : Simulation} (strict : ¬ S.lenient) (never : ∀ c, ¬ S.Beyond c)
    {α : Type} (result : EStateM.Result ParseStop Cursor α) : ¬ S.Escapes result := by
  cases result with
  | ok a d => exact never d
  | error stop d => exact fun escapes => escapes.elim (fun extra => strict extra.1) (never d)

/-- Two results correspond: both steps succeed, with values that `change` takes
to each other, or both stop for the same reason. -/
def Simulation.Matches (S : Simulation) {α : Type} (change : α → α) :
    EStateM.Result ParseStop Cursor α → EStateM.Result ParseStop Cursor α → Prop
  | .ok a c, .ok b d => b = change a ∧ S.Related c d
  | .error s c, .error t d => t = s.mapLine S.lines ∧ S.Related c d
  | _, _ => False

/-- Matched runs both succeed, with results that correspond, or stop for the same reason. -/
theorem Simulation.Matches.outcomes {S : Simulation} {α : Type} {change : α → α}
    {left right : EStateM.Result ParseStop Cursor α} (matched : S.Matches change left right) :
    (∃ a c d, left = .ok a c ∧ right = .ok (change a) d ∧ S.Related c d) ∨
    (∃ stop c d, left = .error stop c ∧ right = .error (stop.mapLine S.lines) d ∧
      S.Related c d) := by
  cases left with
  | ok a c =>
      cases right with
      | ok b d => exact .inl ⟨a, c, d, rfl, by rw [matched.1], matched.2⟩
      | error t d => exact False.elim matched
  | error s c =>
      cases right with
      | ok b d => exact False.elim matched
      | error t d => exact .inr ⟨s, c, d, rfl, by rw [matched.1], matched.2⟩

/-- Two steps give corresponding results on related cursors, unless the first one
escapes. -/
structure Agrees (S : Simulation) {α : Type} (change : α → α) (p q : Parse α) : Prop where
  travels : p.Travels
  run : ∀ c d, S.Related c d → S.Escapes (p c) ∨ S.Matches change (p c) (q d)

variable {S : Simulation} {α β : Type} {change : α → α} {after : β → β}

/-! ## Rules for building steps -/

theorem Agrees.pure (a : α) : Agrees S change (Pure.pure a) (Pure.pure (change a)) where
  travels := travels_of_stay fun _ => rfl
  run := fun _ _ related => .inr ⟨rfl, related⟩

theorem Agrees.pure_of_eq {a b : α} (changed : b = change a) :
    Agrees S change (Pure.pure a) (Pure.pure b) :=
  changed ▸ .pure a

theorem Agrees.bind {p q : Parse α} {f g : α → Parse β} (first : Agrees S change p q)
    (second : ∀ a, Agrees S after (f a) (g (change a))) :
    Agrees S after (p >>= f) (q >>= g) where
  travels := first.travels.bind fun a => (second a).travels
  run := by
    intro c d related
    rcases first.run c d related with escapes | matched
    · refine .inl ?_
      cases left : p c with
      | error stop c' =>
          rw [bind_run_error left]
          rw [left] at escapes
          exact escapes
      | ok a c' =>
          rw [bind_run_ok left]
          rw [left] at escapes
          exact S.escapes_of_after (S.beyond_moves escapes ((second a).travels c'))
    · rcases matched.outcomes with
        ⟨a, c', d', left, right, related'⟩ | ⟨stop, c', d', left, right, related'⟩
      · rw [bind_run_ok left, bind_run_ok right]
        exact (second a).run c' d' related'
      · rw [bind_run_error left, bind_run_error right]
        exact .inr ⟨rfl, related'⟩

theorem Agrees.map {p q : Parse α} {f : α → β} (step : Agrees S change p q)
    (commutes : ∀ a, f (change a) = after (f a)) : Agrees S after (f <$> p) (f <$> q) := by
  rw [map_eq_pure_bind, map_eq_pure_bind]
  refine step.bind fun a => ?_
  rw [commutes]
  exact .pure (f a)

theorem Agrees.ite {p q p' q' : Parse α} {condition : Prop} [Decidable condition]
    (thenStep : Agrees S change p q) (elseStep : Agrees S change p' q') :
    Agrees S change (if condition then p else p') (if condition then q else q') := by
  split
  · exact thenStep
  · exact elseStep

/-! ## Primitive steps -/

theorem peek_agrees : Agrees S (Token.mapLine S.lines) peek peek where
  travels := travels_of_stay fun _ => rfl
  run := fun _ _ related => .inr ⟨S.peek related, related⟩

theorem next_agrees : Agrees S (Token.mapLine S.lines) next next where
  travels := fun _ => .read .here
  run := fun _ _ related => (S.advance related).imp_right fun read => ⟨S.peek related, read⟩

theorem Simulation.atSymbol (S : Simulation) {c d : Cursor} (related : S.Related c d)
    (symbol : Symbol) : d.atSymbol symbol = c.atSymbol symbol := by
  rw [Cursor.atSymbol, Cursor.atSymbol, S.peek related, Token.mapLine_kind]

theorem at_agrees (symbol : Symbol) : Agrees S id (at? symbol) (at? symbol) where
  travels := travels_of_stay fun _ => rfl
  run := fun _ _ related => .inr ⟨S.atSymbol related symbol, related⟩

/-- Symbols do not depend on lines, so accepting one agrees. -/
theorem accept_agrees (symbol : Symbol) : Agrees S id (accept symbol) (accept symbol) where
  travels := by
    intro c
    unfold Parse.after accept
    cases c.atSymbol symbol with
    | true => exact .read .here
    | false => exact .here
  run := by
    intro c d related
    unfold accept
    rw [S.atSymbol related symbol]
    cases c.atSymbol symbol with
    | true => exact (S.advance related).imp_right fun read => ⟨rfl, read⟩
    | false => exact .inr ⟨rfl, related⟩

/-- Mistakes on both sides are at tokens that differ in their lines alone. -/
theorem fail_agrees (expected : Expectation) :
    Agrees S change (fail expected) (fail expected) where
  travels := travels_of_stay fun _ => rfl
  run := by
    intro c d related
    refine .inr ⟨?_, related⟩
    rw [S.peek related]
    rfl

/-- Both parses run out of room, at tokens that differ in their lines alone. -/
theorem tooDeep_agrees : Agrees S change tooDeep tooDeep where
  travels := travels_of_stay fun _ => rfl
  run := fun _ _ related => .inr ⟨rfl, related⟩

/-- In a lenient simulation, running out of room agrees with anything. -/
theorem tooDeep_agrees_any (lenient : S.lenient) (q : Parse α) : Agrees S change tooDeep q where
  travels := travels_of_stay fun _ => rfl
  run := fun _ _ _ => .inl (.inl ⟨lenient, rfl⟩)

theorem note_agrees (expected : Expectation) (token : Token) :
    Agrees S id (note expected token) (note expected (token.mapLine S.lines)) where
  travels := fun _ => .note _ .here
  run := fun _ _ related =>
    (S.report ⟨.missing expected, token⟩ related).imp_right fun noted => ⟨rfl, noted⟩

theorem expect_agrees (symbol : Symbol) (expected : Expectation) :
    Agrees S id (expect symbol expected) (expect symbol expected) where
  travels := by
    intro c
    unfold Parse.after expect
    cases c.atSymbol symbol with
    | true => exact .read .here
    | false => exact .here
  run := by
    intro c d related
    unfold expect
    rw [S.atSymbol related symbol]
    cases c.atSymbol symbol with
    | true => exact (S.advance related).imp_right fun read => ⟨rfl, read⟩
    | false => exact (fail_agrees expected).run c d related

theorem identifier_agrees (expected : Expectation) :
    Agrees S (Prod.map id S.lines) (identifier expected) (identifier expected) where
  travels := by
    intro c
    unfold Parse.after identifier
    split
    · rename_i run
      split at run
      · cases run
        exact .read .here
      · cases run
    · rename_i run
      split at run
      · cases run
      · cases run
        exact .here
  run := by
    intro c d related
    unfold identifier
    rw [S.peek related, Token.mapLine_kind]
    split
    · exact (S.advance related).imp_right fun read => ⟨rfl, read⟩
    · exact (fail_agrees expected).run c d related

theorem insideBlock_agrees {p q : Parse α} (step : Agrees S change p q) :
    Agrees S change (insideBlock p) (insideBlock q) where
  travels := travels_insideBlock step.travels
  run := by
    intro c d related
    rcases step.run _ _ (S.enter related) with escapes | matched
    · refine .inl ?_
      cases left : p { c with openBlocks := c.openBlocks + 1 } with
      | ok a c' =>
          rw [insideBlock_run_ok left]
          rw [left] at escapes
          exact S.beyond_leave escapes
      | error stop c' =>
          rw [insideBlock_run_error left]
          rw [left] at escapes
          exact escapes.imp_right S.beyond_leave
    · rcases matched.outcomes with
        ⟨a, c', d', left, right, related'⟩ | ⟨stop, c', d', left, right, related'⟩
      · rw [insideBlock_run_ok left, insideBlock_run_ok right]
        exact .inr ⟨rfl, S.leave related'⟩
      · rw [insideBlock_run_error left, insideBlock_run_error right]
        exact .inr ⟨rfl, S.leave related'⟩

theorem recover_agrees {p q : Parse α} (step : Agrees S change p q) :
    Agrees S (Option.map change) (recover p) (recover q) where
  travels := travels_recover step.travels
  run := by
    intro c d related
    rcases step.run c d related with escapes | matched
    · refine .inl ?_
      cases left : p c with
      | ok a c' =>
          rw [recover_run_ok left]
          rw [left] at escapes
          exact escapes
      | error stop c' =>
          rw [left] at escapes
          cases stop with
          | mistake error =>
              rw [recover_run_mistake left]
              -- a mistake is no escape, so that the cursor was beyond already
              have earlier : S.Beyond c' := escapes.resolve_left (by simp)
              exact S.beyond_moves earlier (.note error (Cursor.moves_synchronize _))
          | tooDeep =>
              rw [recover_run_tooDeep left]
              rcases escapes with ⟨lenient, -⟩ | earlier
              · -- the mistake that is noted says that the room ran out
                have noted : (c'.report ⟨.nestedTooDeeply, c'.peek⟩).Overflowed :=
                  ⟨_, Array.mem_push_self, rfl⟩
                exact S.beyond_moves (S.overflowed lenient noted) (Cursor.moves_synchronize _)
              · exact S.beyond_moves earlier (.note _ (Cursor.moves_synchronize _))
    · rcases matched.outcomes with
        ⟨a, c', d', left, right, related'⟩ | ⟨stop, c', d', left, right, related'⟩
      · rw [recover_run_ok left, recover_run_ok right]
        exact .inr ⟨rfl, related'⟩
      · cases stop with
        | mistake error =>
            rw [recover_run_mistake left, recover_run_mistake right]
            exact (S.resume error related').imp_right fun resumed => ⟨rfl, resumed⟩
        | tooDeep =>
            rw [recover_run_tooDeep left, recover_run_tooDeep right, S.peek related']
            exact (S.resume _ related').imp_right fun resumed => ⟨rfl, resumed⟩

/-! ## Room -/

/-- How much more room the second parse may have: none, unless the simulation is
lenient. -/
def Simulation.Allows (S : Simulation) (extra : Nat) : Prop :=
  extra = 0 ∨ S.lenient

theorem Simulation.Allows.tooDeep {extra : Nat} {q : Parse α} (allows : S.Allows extra)
    (stops : extra = 0 → q = Parse.tooDeep) : Agrees S change Parse.tooDeep q := by
  rcases allows with none | lenient
  · rw [stops none]
    exact tooDeep_agrees
  · exact tooDeep_agrees_any lenient _

end Parse

end TernLang
