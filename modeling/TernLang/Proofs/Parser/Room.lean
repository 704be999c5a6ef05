import TernLang.Proofs.Parser.Simulation.Statement

/-! # Room does not matter until it runs out

`parse_extra_room`: **a parse that does not report a program as nested too deeply
gives the same result with more room.** It is the lenient simulation of a parse
by itself. The strict one shows that every parsing step only moves the cursor
(`Travels`), which holds of the loops as soon as it holds of what they repeat.
-/

namespace TernLang.Parse

/-- A parse compared with itself; if `lenient`, with more room. -/
def Simulation.same (lenient : Prop) : Simulation where
  lines := id
  lenient := lenient
  Related := Eq
  Beyond c := lenient ∧ c.Overflowed
  beyond_moves := fun ⟨extra, overflowed⟩ moves => ⟨extra, overflowed.moves moves⟩
  beyond_leave := id
  overflowed := And.intro
  peek := by rintro c d rfl; rfl
  advance := by rintro c d rfl; exact .inr rfl
  report := by rintro c d error rfl; exact .inr rfl
  enter := by rintro c d rfl; rfl
  leave := by rintro c d rfl; rfl
  resume := by rintro c d error rfl; exact .inr rfl

@[simp] theorem Simulation.same_lines (lenient : Prop) : (Simulation.same lenient).lines = id := rfl

/-- A step that travels agrees with itself. -/
theorem Travels.agrees {α : Type} {step : Parse α} (travels : step.Travels) :
    Agrees (.same False) id step step where
  travels := travels
  run := by
    rintro c d rfl
    cases result : step c with
    | ok a d => exact .inr ⟨rfl, rfl⟩
    | error stop d => cases stop <;> exact .inr ⟨rfl, rfl⟩

/-! ## Every step moves the cursor -/

theorem peek_travels : peek.Travels :=
  travels_of_stay fun _ => rfl

theorem next_travels : next.Travels :=
  fun _ => .read .here

theorem at_travels (symbol : Symbol) : (at? symbol).Travels :=
  travels_of_stay fun _ => rfl

theorem pure_travels {α : Type} (a : α) : (pure a : Parse α).Travels :=
  travels_of_stay fun _ => rfl

theorem accept_travels (symbol : Symbol) : (accept symbol).Travels :=
  (accept_agrees (S := .same False) symbol).travels

theorem expect_travels (symbol : Symbol) (expected : Expectation) :
    (expect symbol expected).Travels :=
  (expect_agrees (S := .same False) symbol expected).travels

theorem identifier_travels (expected : Expectation) : (identifier expected).Travels :=
  (identifier_agrees (S := .same False) expected).travels

theorem Travels.map {α β : Type} {step : Parse α} (travels : step.Travels) (f : α → β) :
    (f <$> step).Travels := by
  rw [map_eq_pure_bind]
  exact travels.bind fun a => pure_travels (f a)

section Loops

variable {p : Parse Expr} (travels : p.Travels)
include travels

theorem Travels.agreesExpr : Agrees (.same False) (Expr.mapLines id) p p := by
  rw [Expr.mapLines_id]
  exact travels.agrees

theorem chain_travels {γ : Type} (pick : TokenKind → Option γ)
    (join : Expr → Token → γ → Expr → Expr) (size : Nat) (left : Expr) :
    (chain pick join p size left).Travels := by
  have commutes : ∀ left token op right,
      join (left.mapLines id) (token.mapLine id) op (right.mapLines id) =
        (join left token op right).mapLines id := by simp
  exact (chain_agrees (S := .same False) commutes travels.agreesExpr size left).travels

theorem arguments_travels (size : Nat) (before : List Expr) :
    (arguments p size before).Travels :=
  (arguments_agrees (S := .same False) travels.agreesExpr size before).travels

theorem finishCall_travels (size : Nat) (callee : Expr) (line : Nat) :
    (finishCall p size callee line).Travels :=
  (finishCall_agrees (S := .same False) travels.agreesExpr size callee line).travels

theorem finishSlice_travels (target : Expr) (first : Option Expr) (line : Nat) :
    (finishSlice p target first line).Travels :=
  (finishSlice_agrees (S := .same False) travels.agreesExpr target first line).travels

theorem finishAccess_travels (target : Expr) (line : Nat) :
    (finishAccess p target line).Travels :=
  (finishAccess_agrees (S := .same False) travels.agreesExpr target line).travels

theorem accesses_travels (size passes : Nat) (target : Expr) :
    (accesses p size passes target).Travels :=
  (accesses_agrees (S := .same False) travels.agreesExpr size passes target).travels

theorem elements_travels (size : Nat) (before : List Expr) :
    (elements p size before).Travels :=
  (elements_agrees (S := .same False) travels.agreesExpr size before).travels

theorem printStmt_travels (line : Nat) : (printStmt p line).Travels :=
  (printStmt_agrees (S := .same False) travels.agreesExpr line).travels

theorem returnStmt_travels (line : Nat) : (returnStmt p line).Travels :=
  (returnStmt_agrees (S := .same False) travels.agreesExpr line).travels

theorem forCondition_travels : (forCondition p).Travels :=
  (forCondition_agrees (S := .same False) travels.agreesExpr).travels

end Loops

theorem expression_travels (size room : Nat) : (expression size room).Travels :=
  (expression_agrees (S := .same False) (.inl rfl) size room).travels

theorem assignment_travels (size room : Nat) : (assignment size room).Travels :=
  (assignment_agrees (S := .same False) (.inl rfl) size room).travels

theorem disjunction_travels (size room : Nat) : (disjunction size room).Travels :=
  (disjunction_agrees (S := .same False) (.inl rfl) size room).travels

theorem conjunction_travels (size room : Nat) : (conjunction size room).Travels :=
  (conjunction_agrees (S := .same False) (.inl rfl) size room).travels

theorem equality_travels (size room : Nat) : (equality size room).Travels :=
  (equality_agrees (S := .same False) (.inl rfl) size room).travels

theorem comparison_travels (size room : Nat) : (comparison size room).Travels :=
  (comparison_agrees (S := .same False) (.inl rfl) size room).travels

theorem term_travels (size room : Nat) : (term size room).Travels :=
  (term_agrees (S := .same False) (.inl rfl) size room).travels

theorem factor_travels (size room : Nat) : (factor size room).Travels :=
  (factor_agrees (S := .same False) (.inl rfl) size room).travels

theorem unary_travels (size room : Nat) : (unary size room).Travels :=
  (unary_agrees (S := .same False) (.inl rfl) size room).travels

theorem bracketed_travels (size room : Nat) : (bracketed size room).Travels :=
  (bracketed_agrees (S := .same False) (.inl rfl) size room).travels

theorem primary_travels (size room : Nat) : (primary size room).Travels :=
  (primary_agrees (S := .same False) (.inl rfl) size room).travels

theorem varDecl_travels (size line room : Nat) : (varDecl size line room).Travels :=
  (varDecl_agrees (S := .same False) (.inl rfl) size line room).travels

theorem expressionStmt_travels (size room : Nat) : (expressionStmt size room).Travels :=
  (expressionStmt_agrees (S := .same False) (.inl rfl) size room).travels

theorem forInitial_travels (size room : Nat) : (forInitial size room).Travels :=
  (forInitial_agrees (S := .same False) (.inl rfl) size room).travels

theorem parameters_travels (size : Nat) (before : List String) :
    (parameters size before).Travels :=
  (parameters_agrees (S := .same False) size before).travels

theorem functionHead_travels (size : Nat) : (functionHead size).Travels :=
  (functionHead_agrees (S := .same False) size).travels

theorem function_travels (size line room : Nat) : (function size line room).Travels :=
  (function_agrees (S := .same False) (.inl rfl) size line room).travels

theorem statement_travels (size room : Nat) : (statement size room).Travels :=
  (statement_agrees (S := .same False) (.inl rfl) size room).travels

theorem block_travels (size room : Nat) : (block size room).Travels :=
  (block_agrees (S := .same False) (.inl rfl) size room).travels

theorem declaration_travels (size room : Nat) : (declaration size room).Travels :=
  (declaration_agrees (S := .same False) (.inl rfl) size room).travels

theorem declarations_travels {decl : Parse (Option Stmt)} (travels : decl.Travels)
    (inBlock : Bool) (size : Nat) : (declarations inBlock decl size).Travels := by
  have agrees : Agrees (.same False) (Option.map (Stmt.mapLines id)) decl decl := by
    rw [Stmt.mapLines_id, Option.map_id]
    exact travels.agrees
  exact (declarations_agrees (S := .same False) agrees inBlock size).travels

/-! ## A program with more room -/

/-- With at least five units of room a declaration always comes to an end: a
mistake inside is noted and left. -/
theorem declaration_ok (size : Nat) {room : Nat} (enough : 5 ≤ room) (c : Cursor) :
    ∃ stmt d, declaration size room c = .ok stmt d := by
  obtain ⟨room, rfl⟩ := Nat.exists_eq_add_of_le' enough
  unfold declaration recover
  split
  · exact ⟨_, _, rfl⟩
  · exact ⟨_, _, rfl⟩
  · exact ⟨_, _, rfl⟩

/-- A list of declarations never fails when no declaration does. -/
theorem declarations_ok {decl : Parse (Option Stmt)}
    (ends : ∀ c, ∃ stmt d, decl c = .ok stmt d) (inBlock : Bool) (size : Nat) (c : Cursor) :
    ∃ stmts d, declarations inBlock decl size c = .ok stmts d := by
  induction size generalizing c with
  | zero => exact ⟨[], c, rfl⟩
  | succ size ih =>
      rw [declarations, bind_run_ok (show peek c = .ok c.peek c from rfl)]
      split
      · exact ⟨[], c, rfl⟩
      · obtain ⟨stmt, d, first⟩ := ends c
        obtain ⟨others, e, rest⟩ := ih d
        rw [bind_run_ok first, bind_run_ok rest]
        exact ⟨stmt.toList ++ others, e, rfl⟩

/-- The result of parsing is what the list of declarations leaves behind. -/
theorem parse_of_ok {room : Nat} {tokens : List Token} {stmts : List Stmt} {d : Cursor}
    (run : declarations false (declaration tokens.length room) tokens.length
      (Cursor.start tokens) = .ok stmts d) : parse room tokens = ⟨stmts, d.errors.toList⟩ := by
  rw [parse, run]

/-- More room changes nothing, unless the program was reported as nested too
deeply. -/
theorem parse_extra_room {room : Nat} (enough : 5 ≤ room) (tokens : List Token)
    (fits : ∀ error ∈ (parse room tokens).errors, error.cause ≠ .nestedTooDeeply)
    (extra : Nat) : parse (extra + room) tokens = parse room tokens := by
  obtain ⟨stmts, d, run⟩ :=
    declarations_ok (declaration_ok tokens.length enough) false tokens.length
      (Cursor.start tokens)
  rw [parse_of_ok run] at fits ⊢
  have allows : (Simulation.same True).Allows extra := .inr trivial
  have compared := (program_agrees allows tokens.length room).run
    (Cursor.start tokens) (Cursor.start tokens) rfl
  rw [run] at compared
  -- if the room had run out, there would be a mistake that says so
  rcases compared with ⟨-, error, noted, tooDeep⟩ | matched
  · exact absurd tooDeep (fits error (Array.mem_def.mp noted))
  · rcases matched.outcomes with ⟨stmts', c, d', left, right, related⟩ | ⟨_, _, _, left, _, _⟩
    · cases left
      cases related
      rw [parse_of_ok right, Simulation.same_lines, Stmt.mapLines_id, List.map_id]
    · cases left

end TernLang.Parse
