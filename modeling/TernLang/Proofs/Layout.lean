import TernLang.Interpreter
import TernLang.Proofs.Eval.Simulation.Program
import TernLang.Proofs.Parser.Lines

/-! # Layout does not matter

Blanks, line feeds and comments leave a trace only in the line numbers of the
tokens. **Two source texts with the same tokens have the same check and the same
run, up to line numbers** (`layout_irrelevant`).

Both texts are compared with one that has everything on the first line: parsing,
execution and reporting each commute with the renumbering.
-/

namespace TernLang

/-! ## Reports with other lines -/

/-- The diagnostic on another line, if it is on one. -/
def Diagnostic.mapLine (f : Nat → Nat) (diagnostic : Diagnostic) : Diagnostic :=
  { diagnostic with line := diagnostic.line.map f }

def Ending.mapLine (f : Nat → Nat) : Ending → Ending
  | .completed => .completed
  | .failed diagnostic => .failed (diagnostic.mapLine f)
  | .unfinished => .unfinished

def Analysis.mapLines (f : Nat → Nat) (analysis : Analysis) : Analysis where
  statements := analysis.statements.map (Stmt.mapLines f)
  diagnostics := analysis.diagnostics.map (Diagnostic.mapLine f)

def Report.mapLines (f : Nat → Nat) (report : Report) : Report :=
  { report with diagnostics := report.diagnostics.map (Diagnostic.mapLine f) }

/-- The diagnostic without its place: only the first line is left. -/
def Diagnostic.unplaced (diagnostic : Diagnostic) : Diagnostic :=
  diagnostic.mapLine fun _ => 1

/-- The report without the places of its diagnostics. -/
def Report.unplaced (report : Report) : Report :=
  { report with diagnostics := report.diagnostics.map Diagnostic.unplaced }

variable (f : Nat → Nat)

theorem Ending.ofStop_mapLines (stop : Stop) :
    Ending.ofStop (stop.mapLines f) = (Ending.ofStop stop).mapLine f := by
  cases stop <;> rfl

/-! ## Running a renumbered program -/

/-- The run of a program compared with the run of its renumbering, in the same
bounds. -/
def Eval.Comparison.renumbered (limits : Limits) : Eval.Comparison where
  lines := f
  lenient := False
  limits := limits
  limits' := limits
  extra := 0
  calls := Int.le_refl _
  passes := rfl
  strict := .inr ⟨rfl, rfl⟩

/-- Nothing that is built in has a line. -/
theorem freshGlobals_mapLines : freshGlobals.2.mapLines f = freshGlobals.2 := by
  have none : freshGlobals.2.functions = #[] := rfl
  rw [Heap.mapLines, none, Array.map_empty, ← none]

/-- A run of a program with renumbered lines is the same run with renumbered lines. -/
theorem execute_mapLines (limits : Limits) (statements : List Stmt) :
    execute limits (statements.map (Stmt.mapLines f)) =
      ((execute limits statements).1.mapLine f, (execute limits statements).2.mapLines f) := by
  have agrees := Eval.executeProgram_agrees (Eval.Comparison.renumbered f limits)
    (executionRoom limits.maxCallDepth) freshGlobals.1 statements ⟨freshGlobals.2, #[], 0⟩
  rcases agrees with ⟨lenient, -⟩ | same
  · exact lenient.elim
  · -- both runs start on the same machine, since no function is built in
    have started : Machine.mapLines f ⟨freshGlobals.2, #[], 0⟩ = ⟨freshGlobals.2, #[], 0⟩ := by
      rw [Machine.mapLines, freshGlobals_mapLines]
    simp only [Eval.Comparison.renumbered, Nat.zero_add, started] at same
    unfold execute
    simp only [same]
    cases Eval.executeProgram limits (executionRoom limits.maxCallDepth) freshGlobals.1 statements
        ⟨freshGlobals.2, #[], 0⟩ with
    | ok _ machine => rfl
    | error stop machine =>
        simp only [Eval.Result.mapLines, Ending.ofStop_mapLines]

/-- So is its report. -/
theorem runAnalyzed_mapLines (interpreter : Interpreter) (analysis : Analysis) :
    (interpreter.runAnalyzed (analysis.mapLines f)).1 =
      (interpreter.runAnalyzed analysis).1.mapLines f := by
  have mistakes : (analysis.mapLines f).diagnostics.isEmpty = analysis.diagnostics.isEmpty := by
    simp [Analysis.mapLines]
  have executed := execute_mapLines f interpreter.limits analysis.statements
  unfold Interpreter.runAnalyzed
  rw [mistakes]
  split
  · rfl
  · simp only [Analysis.mapLines, executed]
    cases (execute interpreter.limits analysis.statements).1 <;> rfl

/-! ## Two layouts of one program -/

/-- Tokens of the same kinds are equal once they are all on the first line. -/
theorem tokens_unplaced {first second : List Token}
    (kinds : first.map Token.kind = second.map Token.kind) :
    first.map (Token.mapLine fun _ => 1) = second.map (Token.mapLine fun _ => 1) := by
  have place : Token.mapLine (fun _ => 1) = (fun kind => ⟨kind, 1⟩) ∘ Token.kind := rfl
  rw [place, ← List.map_map, ← List.map_map, kinds]

/-- The analyses of two layouts are equal once everything is on the first
line. -/
theorem analyze_unplaced {first second : String} (firstLexes : (lex first).error? = none)
    (secondLexes : (lex second).error? = none)
    (kinds : (lex first).tokens.map Token.kind = (lex second).tokens.map Token.kind)
    (maxCallDepth : Int) :
    (analyze maxCallDepth first).map (Analysis.mapLines fun _ => 1) =
      (analyze maxCallDepth second).map (Analysis.mapLines fun _ => 1) := by
  have parses : (parse (parsingRoom maxCallDepth) (lex first).tokens).mapLines (fun _ => 1) =
      (parse (parsingRoom maxCallDepth) (lex second).tokens).mapLines fun _ => 1 := by
    rw [← parse_mapLines (.inl rfl), ← parse_mapLines (.inl rfl), tokens_unplaced kinds]
  have reports : ∀ parsed : Parsed,
      Analysis.mapLines (fun _ => 1) ⟨parsed.statements, parsed.errors.map .ofSyntaxError⟩ =
        ⟨(parsed.mapLines fun _ => 1).statements,
          (parsed.mapLines fun _ => 1).errors.map .ofSyntaxError⟩ := by
    intro parsed
    simp only [Analysis.mapLines, Parsed.mapLines, List.map_map]
    rfl
  unfold analyze
  simp only [firstLexes, secondLexes]
  split
  · rfl
  · simp only [Except.map, reports, parses]

/-- **Layout does not matter**: two source texts that split into the same tokens,
whatever blanks, line feeds and comments stand between them, have the same
mistakes and the same run up to line numbers: the same lines are printed, the
same diagnostics are given in the same order, and both are completed, both fail
or both use up the passes of a loop, for any number of passes. The kind of a
token has its characters and its value in it. -/
theorem layout_irrelevant {first second : String} (firstLexes : (lex first).error? = none)
    (secondLexes : (lex second).error? = none)
    (kinds : (lex first).tokens.map Token.kind = (lex second).tokens.map Token.kind) :
    (∀ limits, (run limits first).map Report.unplaced =
      (run limits second).map Report.unplaced) ∧
    ∀ maxCallDepth, (check maxCallDepth first).map (List.map Diagnostic.unplaced) =
      (check maxCallDepth second).map (List.map Diagnostic.unplaced) := by
  have analyzed := analyze_unplaced firstLexes secondLexes kinds
  have ran : ∀ limits source, (run limits source).map Report.unplaced =
      ((analyze limits.maxCallDepth source).map (Analysis.mapLines fun _ => 1)).map
        fun analysis => ((Interpreter.new limits).runAnalyzed analysis).1 := by
    intro limits source
    show (((analyze limits.maxCallDepth source).map _).map Prod.fst).map _ = _
    cases analyze limits.maxCallDepth source with
    | error refused => rfl
    | ok analysis =>
        exact congrArg Except.ok (runAnalyzed_mapLines _ (Interpreter.new limits) analysis).symm
  have checked : ∀ maxCallDepth source,
      (check maxCallDepth source).map (List.map Diagnostic.unplaced) =
        ((analyze maxCallDepth source).map (Analysis.mapLines fun _ => 1)).map
          Analysis.diagnostics := by
    intro maxCallDepth source
    unfold check
    cases analyze maxCallDepth source <;> rfl
  refine ⟨fun limits => ?_, fun maxCallDepth => ?_⟩
  · rw [ran, ran, analyzed]
  · rw [checked, checked, analyzed]

/-- One program on a line, and spread out with a comment; it prints a line and
then fails. -/
theorem layout_irrelevant_comment :
    (lex "print true; x();").tokens ≠ (lex "// calls x\nprint\n  true;\nx (\n) ; ").tokens ∧
    (run ⟨255, 10⟩ "print true; x();").map Report.unplaced =
      (run ⟨255, 10⟩ "// calls x\nprint\n  true;\nx (\n) ; ").map Report.unplaced ∧
    (check 255 "print true; x();").map (List.map Diagnostic.unplaced) =
      (check 255 "// calls x\nprint\n  true;\nx (\n) ; ").map (List.map Diagnostic.unplaced) := by
  have layouts := @layout_irrelevant "print true; x();" "// calls x\nprint\n  true;\nx (\n) ; "
    (by rfl) (by rfl) (by rfl)
  exact ⟨by decide, layouts.1 ⟨255, 10⟩, layouts.2 255⟩

end TernLang
