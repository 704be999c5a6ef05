import TernLang.Proofs.Blocks
import TernLang.Proofs.Parser.Pieces
import TernLang.Proofs.Parser.Thrift.Statement

/-! # The parser makes progress

**A parse of any tokens comes to its end** (`parser_progresses`), whatever stands in them
and whether or not the last one is an end of input. Every declaration that is begun reads
at least one token and leaves as many blocks open as there were, also where it is given up
for a mistake. There are no more mistakes than tokens.

The bounds on nesting and on the passes of loops play no part in this: with fifteen units
of room for each token, and eighteen more, the nesting is never too deep, and more room or
more passes change nothing. Each task of the parse has this much room for the tokens that
are ahead of it (`Task.WellPlaced`), since a task that is nested in itself starts behind
at least one token more.
-/

namespace TernLang

open Grammar (sym)

namespace Parse

/-- What holds where a parse with room for all of its tokens begins a task: there is room for
the tokens ahead. Declarations outside of blocks go up to the end; a single one starts
neither there nor in front of the brace that closes the open block. -/
def Task.WellPlaced : Task → Cursor → Prop
  | declarations inBlock _ room, c =>
      15 * c.rest.length + 18 ≤ room ∧ (inBlock = false → c.openBlocks = 0)
  | declaration room, c => 15 * c.rest.length + 18 ≤ room ∧ c.peek.kind ≠ .endOfInput ∧
      c.atClosingBrace = false
  | declared room, c => 15 * c.rest.length + 17 ≤ room
  | function _ room, c => 15 * c.rest.length + 20 ≤ room
  | block room, c => 15 * c.rest.length + 19 ≤ room
  | statement room, c => 15 * c.rest.length + 17 ≤ room

section Steps

variable {size room : Nat} {c d : Cursor} {α : Type} {p : Parse α} {a : α} {n : ℤ}

theorem Thrifty.length_le (thrifty : Thrifty c.rest.length n p) (run : p c = .ok a d) :
    d.rest.length ≤ c.rest.length := by
  have owes := thrifty c (Nat.le_refl _)
  rw [run] at owes
  exact Cursor.Owes.length_le owes

theorem length_advance {kind : TokenKind} (found : c.peek.kind = kind)
    (more : kind ≠ .endOfInput) : c.rest.length = c.advance.rest.length + 1 := by
  rw [(reads_kind found more).length_eq, List.length_singleton, Nat.add_comm]

/-- The next declaration, and those behind it. -/
theorem wellPlaced_declarations {inBlock : Bool} {passes : Nat} {call : Task × Cursor}
    (placed : (Task.declarations inBlock passes room).WellPlaced c)
    (starts : Starts size (.declarations inBlock passes room, c) call) :
    call.1.WellPlaced call.2 := by
  obtain ⟨enough, outside⟩ := placed
  cases passes with
  | zero => cases starts
  | succ passes =>
      change call ∈ (if _ then _ else _) at starts
      split at starts
      · cases starts
      · rename_i goes
        rcases List.mem_cons.mp starts with rfl | later
        · exact ⟨enough, starts_of_goes goes outside⟩
        · obtain ⟨stmt, d, run, mem⟩ := mem_behind later
          cases List.mem_singleton.mp mem
          have moves := (declaration_travels size room).ok run
          have less : d.rest.length ≤ c.rest.length := moves.length_le
          have enough : 15 * c.rest.length + 18 ≤ room := enough
          refine ⟨?_, fun none => moves.openBlocks.trans (outside none)⟩
          show 15 * d.rest.length + 18 ≤ room
          omega

/-- What a statement starts is behind its keyword or brace. -/
theorem wellPlaced_statement {call : Task × Cursor} (placed : (Task.statement room).WellPlaced c)
    (starts : Starts size (.statement room, c) call) : call.1.WellPlaced call.2 := by
  rcases room with _ | _ | room
  · cases starts
  · cases starts
  · change 15 * c.rest.length + 17 ≤ room + 2 at placed
    change call ∈ (Task.statement (room + 2)).calls size c at starts
    rw [Task.calls] at starts
    generalize found : c.peek.kind = kind at starts
    -- the keyword is behind, which leaves room for what follows the head
    have behindHead {d : Cursor} (behind : c.rest.length = c.advance.rest.length + 1)
        (less : d.rest.length ≤ c.advance.rest.length) :
        (Task.statement room).WellPlaced d := by
      show 15 * d.rest.length + 17 ≤ room
      omega
    split at starts
    · have behind := length_advance found (by simp)
      obtain ⟨clauses, d, run, mem⟩ := mem_behind starts
      cases List.mem_singleton.mp mem
      exact behindHead behind ((forClauses_thrifty size (by omega)).length_le run)
    · have behind := length_advance found (by simp)
      have value := expression_thrifty size room c.advance.rest.length (by omega)
      obtain ⟨test, d, run, mem⟩ := mem_behind starts
      have head := (condition_thrifty value _ _).length_le run
      rcases List.mem_cons.mp mem with rfl | later
      · exact behindHead behind head
      · -- the second branch
        obtain ⟨thenBranch, e, run', mem⟩ := mem_behind later
        have inner := ((statement_travels size room).ok run').length_le
        generalize ahead : e.peek.kind = kind at mem
        split at mem
        · cases List.mem_singleton.mp mem
          refine behindHead behind ?_
          show e.advance.rest.length ≤ c.advance.rest.length
          have behindElse := length_advance ahead (by simp)
          omega
        · cases mem
    · have behind := length_advance found (by simp)
      have value := expression_thrifty size room c.advance.rest.length (by omega)
      obtain ⟨test, d, run, mem⟩ := mem_behind starts
      cases List.mem_singleton.mp mem
      exact behindHead behind ((condition_thrifty value _ _).length_le run)
    · have behind := length_advance found (by simp)
      cases List.mem_singleton.mp starts
      show 15 * c.advance.rest.length + 19 ≤ room + 1
      omega
    · cases starts

/-- **A task that is well placed starts tasks that are.** -/
theorem Starts.wellPlaced {task call : Task × Cursor} (starts : Starts size task call)
    (placed : task.1.WellPlaced task.2) : call.1.WellPlaced call.2 := by
  obtain ⟨task, c⟩ := task
  cases task with
  | declarations inBlock passes room => exact wellPlaced_declarations placed starts
  | statement room => exact wellPlaced_statement placed starts
  | declaration room =>
      have enough : 15 * c.rest.length + 18 ≤ room := placed.1
      obtain ⟨room, rfl⟩ := Nat.exists_eq_add_of_le' (show 5 ≤ room by omega)
      cases List.mem_singleton.mp starts
      show 15 * c.rest.length + 17 ≤ room + 4
      omega
  | declared room =>
      change 15 * c.rest.length + 17 ≤ room at placed
      change call ∈ (Task.declared room).calls size c at starts
      rw [Task.calls] at starts
      generalize found : c.peek.kind = kind at starts
      split at starts
      · cases List.mem_singleton.mp starts
        -- a declaration of a function has read its keyword
        have behind := length_advance found (by simp)
        show 15 * c.advance.rest.length + 20 ≤ room
        omega
      · cases starts
      · cases List.mem_singleton.mp starts
        exact placed
  | function line room =>
      cases room with
      | zero => cases starts
      | succ room =>
          change 15 * c.rest.length + 20 ≤ room + 1 at placed
          obtain ⟨head, d, run, mem⟩ := mem_behind starts
          cases List.mem_singleton.mp mem
          have less : d.rest.length ≤ c.rest.length := (functionHead_thrifty size).length_le run
          show 15 * d.rest.length + 19 ≤ room
          omega
  | block room =>
      cases room with
      | zero => cases starts
      | succ room =>
          change 15 * c.rest.length + 19 ≤ room + 1 at placed
          cases List.mem_singleton.mp starts
          refine ⟨?_, fun outside => absurd outside (by simp)⟩
          show 15 * c.rest.length + 18 ≤ room
          omega

/-- All tasks of a parse are well placed if the first one is. -/
theorem Reaches.wellPlaced {task call : Task × Cursor} (reaches : Reaches size task call)
    (placed : task.1.WellPlaced task.2) : call.1.WellPlaced call.2 := by
  induction reaches with
  | refl => exact placed
  | tail _ starts ih => exact starts.wellPlaced ih

/-- **A declaration that is well placed reads a token** and leaves the blocks as they are,
whether it is read or given up. -/
theorem Task.WellPlaced.reads (size : Nat) (placed : (Task.declaration room).WellPlaced c) :
    ∃ stmt d read, Parse.declaration size room c = .ok stmt d ∧ c.rest = read ++ d.rest ∧
      read ≠ [] ∧ d.openBlocks = c.openBlocks := by
  obtain ⟨enough, more, inside⟩ := placed
  obtain ⟨stmt, d, run⟩ := declaration_ok size (show 5 ≤ room by omega) c
  -- an excerpt of no tokens, since only what is read counts here
  let E : Excerpt := ⟨[], #[], 0⟩
  have recovers : Recovers E 0 (Parse.declaration size room) (Parse.declaration size room) :=
    declaration_recovers ⟨Nat.zero_le _, Nat.zero_le _⟩ (fun _ _ tail => by cases tail) room
  have less := recovers.reads c stmt d run more inside
  have moves := recovers.travels.ok run
  obtain ⟨read, rest⟩ := moves.suffix
  refine ⟨stmt, d, read, run, rest, ?_, moves.openBlocks⟩
  rintro rfl
  rw [rest] at less
  exact Nat.lt_irrefl _ less

end Steps

section Programs

variable {room : Nat} {tokens : List Token} (enough : 15 * tokens.length + 18 ≤ room)
include enough

/-- The mistakes are paid for by the tokens. -/
theorem start_owes {stmts : List Stmt} {d : Cursor}
    (run : declarations false (declaration tokens.length room) tokens.length (Cursor.start tokens) =
      .ok stmts d) : (Cursor.start tokens).Owes 0 d := by
  have allows : Allows (Cursor.start tokens) 0
      (declarations false (declaration tokens.length room) tokens.length (Cursor.start tokens)) :=
    declarations_allows (declaration_travels tokens.length room)
      (declaration_allows tokens.length room tokens.length enough) tokens.length
      (Nat.le_refl tokens.length) fun _ => rfl
  rwa [run] at allows

/-- No mistake is a lack of room. -/
theorem start_shallow {stmts : List Stmt} {d : Cursor}
    (run : declarations false (declaration tokens.length room) tokens.length (Cursor.start tokens) =
      .ok stmts d) : ∀ error ∈ d.errors.toList, error.cause ≠ .nestedTooDeeply := by
  intro error mem deep
  obtain ⟨other, noted, -⟩ :=
    (start_owes enough run).shallow ⟨error, Array.mem_toList_iff.mp mem, deep⟩
  simp [Cursor.start] at noted

/-- There are no more mistakes than tokens. -/
theorem start_errors_le {stmts : List Stmt} {d : Cursor}
    (run : declarations false (declaration tokens.length room) tokens.length (Cursor.start tokens) =
      .ok stmts d) : d.errors.toList.length ≤ (tokens.filter (·.kind ≠ .endOfInput)).length := by
  have balance := (start_owes enough run).balance
  have ahead : (Cursor.start tokens).ahead = (tokens.filter (·.kind ≠ .endOfInput)).length :=
    List.countP_eq_length_filter
  have clean : (Cursor.start tokens).errors.size = 0 := rfl
  rw [Array.length_toList]
  omega

/-- However many passes the loops may take, the parse reads up to the end. -/
theorem start_finishes {size passes : Nat} (sized : tokens.length ≤ size)
    (passed : tokens.length ≤ passes) :
    ∃ d, declarations false (declaration size room) passes (Cursor.start tokens) =
        .ok (parse room tokens).statements d ∧
      d.errors.toList = (parse room tokens).errors ∧ d.peek.kind = .endOfInput := by
  have deep : 5 ≤ room := by omega
  obtain ⟨d, run, noted⟩ := declarations_whole (d := Cursor.start tokens) deep rfl sized passed
  have atEnd := @declarations_atEnd size room (Cursor.start tokens) deep passes passed rfl
  rw [after_ok run] at atEnd
  refine ⟨d, run, ?_, atEnd⟩
  rw [noted]
  simp [Cursor.start]

end Programs

end Parse

open Parse

/-- **The parser makes progress.** With room for its tokens the parse comes to its end,
with no mistake for lack of room, and more room or more passes of its loops change nothing.
Every declaration that is begun, at any depth, reads a token and leaves as many blocks open
as there were. There are no more mistakes than tokens. -/
theorem parser_progresses {room : Nat} {tokens : List Token}
    (enough : 15 * tokens.length + 18 ≤ room) :
    (∀ size passes, tokens.length ≤ size → tokens.length ≤ passes →
      ∃ d, declarations false (declaration size room) passes (Cursor.start tokens) =
          .ok (parse room tokens).statements d ∧
        d.errors.toList = (parse room tokens).errors ∧ d.peek.kind = .endOfInput) ∧
    (∀ extra, parse (extra + room) tokens = parse room tokens) ∧
    (∀ error ∈ (parse room tokens).errors, error.cause ≠ .nestedTooDeeply) ∧
    (∀ left c, Visits room tokens (.declaration left) c →
      ∃ stmt d read, declaration tokens.length left c = .ok stmt d ∧ c.rest = read ++ d.rest ∧
        read ≠ [] ∧ d.openBlocks = c.openBlocks) ∧
    (parse room tokens).errors.length ≤ (tokens.filter (·.kind ≠ .endOfInput)).length := by
  obtain ⟨d, run, noted, -⟩ := start_finishes enough (Nat.le_refl tokens.length) (Nat.le_refl _)
  have shallow : ∀ error ∈ (parse room tokens).errors, error.cause ≠ .nestedTooDeeply := by
    rw [← noted]
    exact start_shallow enough run
  refine ⟨fun size passes => start_finishes enough, fun extra => ?_, shallow,
    fun left c visits => ?_, ?_⟩
  · exact parse_extra_room (by omega) tokens shallow extra
  · have placed : (Task.declarations false tokens.length room).WellPlaced (Cursor.start tokens) :=
      ⟨enough, fun _ => rfl⟩
    exact Task.WellPlaced.reads tokens.length (visits.wellPlaced placed)
  · rw [← noted]
    exact start_errors_le enough run

/-- In `{ ( }`, without an end of input, the mistake inside the block is noticed in front of
the closing brace, where nothing is skipped. The declaration has read the parenthesis. -/
theorem parser_progresses_brace :
    let tokens := [sym .leftBrace 1, sym .leftParen 1, sym .rightBrace 1]
    let c : Cursor := ⟨tokens.drop 1, some (sym .leftBrace 1), #[], 1⟩
    15 * tokens.length + 18 ≤ 63 ∧
      parse 63 tokens = ⟨[.block [] 1], [⟨.missing .expression, sym .rightBrace 1⟩]⟩ ∧
      Visits 63 tokens (.declaration 60) c ∧
      ∃ stmt d read, declaration 3 60 c = .ok stmt d ∧ c.rest = read ++ d.rest ∧ read ≠ [] ∧
        d.openBlocks = c.openBlocks := by
  intro tokens c
  have enough : 15 * tokens.length + 18 ≤ 63 := by decide
  have first : Starts 3 (.declarations false 3 63, Cursor.start tokens)
      (.declaration 63, Cursor.start tokens) := by decide +kernel
  have attempt : Starts 3 (.declaration 63, Cursor.start tokens)
      (.declared 62, Cursor.start tokens) := by decide +kernel
  have stmt : Starts 3 (.declared 62, Cursor.start tokens)
      (.statement 62, Cursor.start tokens) := by decide +kernel
  have braced : Starts 3 (.statement 62, Cursor.start tokens)
      (.block 61, { c with openBlocks := 0 }) := by decide +kernel
  have inside : Starts 3 (.block 61, { c with openBlocks := 0 }) (.declarations true 3 60, c) := by
    decide +kernel
  have inner : Starts 3 (.declarations true 3 60, c) (.declaration 60, c) := by decide +kernel
  have visits : Visits 63 tokens (.declaration 60) c :=
    ((((first.reaches.trans attempt.reaches).trans stmt.reaches).trans braced.reaches).trans
      inside.reaches).trans inner.reaches
  obtain ⟨-, -, -, reads, -⟩ := parser_progresses enough
  exact ⟨enough, rfl, visits, reads 60 c visits⟩

end TernLang
