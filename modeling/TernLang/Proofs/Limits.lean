import TernLang.Interpreter
import TernLang.Proofs.Eval.Simulation.Program
import TernLang.Proofs.Parser.Room

/-! # Raising the limit on calls

The limit on calls in progress acts twice: calls beyond it are a fault, and the
nesting that parsing and execution may use grows with it. **A larger limit changes
nothing about a run that stayed within the smaller one** (`run_raised`): the only
way in which either effect shows is a stop that nothing in the language catches.

A limit whose nesting is more than a run can allow is refused before anything is
parsed. This is the one exception, and `run_raised_refused` meets it.
-/

namespace TernLang

/-! ## Budgets -/

/-- A larger limit allows no less nesting. -/
theorem nestingBudget_mono {d d' : Int} (larger : d ≤ d') : nestingBudget d ≤ nestingBudget d' := by
  unfold nestingBudget
  omega

theorem baseNesting_le_nestingBudget (d : Int) : baseNesting ≤ nestingBudget d := by
  unfold nestingBudget
  omega

/-- The larger limit leaves more room for execution. -/
theorem executionRoom_raised {d d' : Int} (larger : d ≤ d') :
    nestingBudget d' - nestingBudget d + executionRoom d = executionRoom d' := by
  have budgets := nestingBudget_mono larger
  have base := baseNesting_le_nestingBudget d
  unfold executionRoom
  simp only [baseNesting] at base
  omega

/-- The larger limit leaves more room for parsing. -/
theorem parsingRoom_raised {d d' : Int} (larger : d ≤ d') :
    nestingBudget d' - nestingBudget d + parsingRoom d = parsingRoom d' := by
  have budgets := nestingBudget_mono larger
  have base := baseNesting_le_nestingBudget d
  unfold parsingRoom
  simp only [baseNesting] at base
  omega

/-- There is always room for a declaration. -/
theorem five_le_parsingRoom (d : Int) : 5 ≤ parsingRoom d := by
  have base := baseNesting_le_nestingBudget d
  unfold parsingRoom
  simp only [baseNesting] at base
  omega

/-! ## Overflows that are reported -/

/-- The diagnostic says that nesting or calls went too deep. -/
def Diagnostic.Overflow (diagnostic : Diagnostic) : Prop :=
  diagnostic.kind = "StackOverflow" ∨
    (diagnostic.kind = "ParseError" ∧ diagnostic.message = "Expression nested too deeply")

/-- A stop because of an overflow is reported as one. -/
theorem Stop.Overflows.reported {stop : Stop} (overflows : stop.Overflows) :
    ∃ diagnostic, Ending.ofStop stop = .failed diagnostic ∧ diagnostic.Overflow := by
  cases stop with
  | fault cause line =>
      refine ⟨.ofFault cause line, rfl, .inl ?_⟩
      show cause.kind.text = "StackOverflow"
      rw [show cause.kind = .stackOverflow from overflows]
      rfl
  | tooDeep => exact ⟨.ofFault (.nestedTooDeep none) none, rfl, .inl rfl⟩
  | outOfPasses => exact overflows.elim

/-! ## The larger limit -/

/-- The run of a program compared with its run under a larger limit. -/
def Eval.Comparison.raised (limits : Limits) {maxCallDepth : Int}
    (larger : limits.maxCallDepth ≤ maxCallDepth) : Eval.Comparison where
  lines := id
  lenient := True
  limits := limits
  limits' := ⟨maxCallDepth, limits.passes⟩
  extra := nestingBudget maxCallDepth - nestingBudget limits.maxCallDepth
  calls := larger
  passes := rfl
  strict := .inl trivial

/-- A program that does not overflow ends alike under a larger limit. -/
theorem execute_raised {limits : Limits} {maxCallDepth : Int}
    (larger : limits.maxCallDepth ≤ maxCallDepth) {statements : List Stmt}
    (fits : ∀ diagnostic, (execute limits statements).1 = .failed diagnostic →
      ¬ diagnostic.Overflow) :
    execute ⟨maxCallDepth, limits.passes⟩ statements = execute limits statements := by
  have agrees := Eval.executeProgram_agrees (Eval.Comparison.raised limits larger)
    (executionRoom limits.maxCallDepth) freshGlobals.1 statements ⟨freshGlobals.2, #[], 0⟩
  have machines : Machine.mapLines id = id := by
    funext machine
    simp [Machine.mapLines]
  simp only [Eval.Comparison.raised, executionRoom_raised larger, Stmt.mapLines_id, List.map_id,
    machines, id_eq] at agrees
  unfold execute at fits ⊢
  rcases agrees with ⟨-, overflows⟩ | same
  · -- the smaller limit was met, so the run has reported an overflow
    exfalso
    cases ran : Eval.executeProgram limits (executionRoom limits.maxCallDepth) freshGlobals.1
        statements ⟨freshGlobals.2, #[], 0⟩ with
    | ok _ machine =>
        rw [ran] at overflows
        exact overflows
    | error stop machine =>
        rw [ran] at overflows
        obtain ⟨diagnostic, ending, overflow⟩ := Stop.Overflows.reported overflows
        simp only [ran] at fits
        exact fits diagnostic ending overflow
  · simp only [same]
    cases Eval.executeProgram limits (executionRoom limits.maxCallDepth) freshGlobals.1 statements
        ⟨freshGlobals.2, #[], 0⟩ with
    | ok _ machine => simp only [Eval.Result.mapLines, machines, id_eq]
    | error stop machine =>
        have stops : stop.mapLines id = stop := by cases stop <;> simp [Stop.mapLines]
        simp only [Eval.Result.mapLines, machines, stops, id_eq]

/-- A text whose nesting is not reported as too deep is parsed alike under a
larger limit, unless that limit is refused. -/
theorem analyze_raised {d d' : Int} (larger : d ≤ d') {source : String} {analysis : Analysis}
    (analyzed : analyze d source = .ok analysis)
    (fits : ∀ diagnostic ∈ analysis.diagnostics, ¬ diagnostic.Overflow) :
    analyze d' source =
      if (lex source).error? = none ∧ maxNesting < nestingBudget d' then .error ⟨d'⟩
      else .ok analysis := by
  unfold analyze at analyzed ⊢
  cases lexed : (lex source).error? with
  | some error =>
      simp only [lexed] at analyzed ⊢
      simpa using analyzed
  | none =>
      simp only [lexed, true_and] at analyzed ⊢
      by_cases refused : maxNesting < nestingBudget d'
      · rw [if_pos refused, if_pos refused]
      · have budgets := nestingBudget_mono larger
        rw [if_neg (by omega)] at analyzed
        rw [if_neg refused, if_neg refused]
        cases analyzed
        have within : ∀ error ∈ (parse (parsingRoom d) (lex source).tokens).errors,
            error.cause ≠ .nestedTooDeeply := by
          intro error mem cause
          refine fits (.ofSyntaxError error) (List.mem_map_of_mem mem) (.inr ⟨rfl, ?_⟩)
          simp [Diagnostic.ofSyntaxError, SyntaxError.message, cause]
        rw [← parsingRoom_raised larger,
          Parse.parse_extra_room (five_le_parsingRoom d) (lex source).tokens within]

/-- What an interpreter reports is the mistakes of the program, or how its
execution ended. -/
theorem runAnalyzed_raised {limits : Limits} {maxCallDepth : Int}
    (larger : limits.maxCallDepth ≤ maxCallDepth) {analysis : Analysis}
    (fits : ∀ diagnostic ∈ ((Interpreter.new limits).runAnalyzed analysis).1.diagnostics,
      ¬ diagnostic.Overflow) :
    ((Interpreter.new ⟨maxCallDepth, limits.passes⟩).runAnalyzed analysis).1 =
      ((Interpreter.new limits).runAnalyzed analysis).1 := by
  unfold Interpreter.runAnalyzed at fits ⊢
  by_cases mistakes : (!analysis.diagnostics.isEmpty) = true
  · simp only [if_pos mistakes]
  · simp only [if_neg mistakes] at fits ⊢
    have same : execute ⟨maxCallDepth, limits.passes⟩ analysis.statements =
        execute limits analysis.statements := by
      refine execute_raised larger fun diagnostic failed => fits diagnostic ?_
      simp [Interpreter.new, failed]
    simp only [Interpreter.new, same]
    cases (execute limits analysis.statements).1 <;> rfl

/-- **Raising the limit is harmless**: if the run under a limit reports neither
that calls or nesting went too deep nor that an expression is nested too deeply,
then the run under any larger limit gives the same report: the same lines are
printed, the same diagnostics are given, and it completes, fails or uses up the
passes of a loop alike. A larger limit that asks for more nesting than a run can
allow is refused instead, as soon as there is something to parse. -/
theorem run_raised {limits : Limits} {maxCallDepth : Int}
    (larger : limits.maxCallDepth ≤ maxCallDepth) {source : String} {report : Report}
    (ran : run limits source = .ok report)
    (fits : ∀ diagnostic ∈ report.diagnostics, ¬ diagnostic.Overflow) :
    run ⟨maxCallDepth, limits.passes⟩ source =
      if (lex source).error? = none ∧ maxNesting < nestingBudget maxCallDepth then
        .error ⟨maxCallDepth⟩
      else .ok report := by
  unfold run Interpreter.run at ran ⊢
  cases analyzed : analyze limits.maxCallDepth source with
  | error refused => simp [Interpreter.new, analyzed, Except.map] at ran
  | ok analysis =>
      have reported : ((Interpreter.new limits).runAnalyzed analysis).1 = report := by
        simpa [Interpreter.new, analyzed, Except.map] using ran
      subst reported
      -- the mistakes of the program are reported as they are
      have parsed : ∀ diagnostic ∈ analysis.diagnostics, ¬ diagnostic.Overflow := by
        intro diagnostic mem
        refine fits diagnostic ?_
        have mistakes : (!analysis.diagnostics.isEmpty) = true := by
          cases found : analysis.diagnostics with
          | nil => simp [found] at mem
          | cons _ _ => rfl
        simpa only [Interpreter.runAnalyzed, if_pos mistakes] using mem
      have again := analyze_raised larger analyzed parsed
      have same := runAnalyzed_raised larger fits
      rw [show (Interpreter.new ⟨maxCallDepth, limits.passes⟩).limits.maxCallDepth = maxCallDepth
        from rfl, again]
      split
      · rfl
      · exact congrArg Except.ok same

deriving instance DecidableEq for Report

/-- What two runs gave can be compared. -/
instance decidableEqRun : DecidableEq (Except LimitTooLarge Report)
  | .ok report, .ok other => decidable_of_iff (report = other) (by simp)
  | .error refused, .error other => decidable_of_iff (refused = other) (by simp)
  | .ok _, .error _ => isFalse nofun
  | .error _, .ok _ => isFalse nofun

/-- A program that needs two calls at once, prints a line and then fails: a limit
of two is enough, and 255 changes nothing. -/
theorem run_raised_twoCalls :
    (run ⟨2, 10⟩ "def f(n) { if (n) f(false); print n; [].pop(); }\nf(true);" =
      .ok ⟨false, ["false"],
        [⟨.runtime, some 1, "Cannot pop from an empty list", "EmptyListError"⟩], true⟩) ∧
    (run ⟨255, 10⟩ "def f(n) { if (n) f(false); print n; [].pop(); }\nf(true);" =
      .ok ⟨false, ["false"],
        [⟨.runtime, some 1, "Cannot pop from an empty list", "EmptyListError"⟩], true⟩) := by
  have ran : run ⟨2, 10⟩ "def f(n) { if (n) f(false); print n; [].pop(); }\nf(true);" =
      .ok ⟨false, ["false"],
        [⟨.runtime, some 1, "Cannot pop from an empty list", "EmptyListError"⟩], true⟩ := by
    decide +kernel
  have raised := @run_raised ⟨2, 10⟩ 255 (by decide) _ _ ran (by simp [Diagnostic.Overflow])
  exact ⟨ran, raised.trans (if_neg (by decide +kernel))⟩

/-- The refusal does happen: a limit can be too large for a program that completes
under the usual one. -/
theorem run_raised_refused :
    ∃ report, run ⟨255, 10⟩ "print true;" = .ok report ∧ report.ok = true ∧
      report.output = ["true"] ∧ report.diagnostics = [] ∧ (1 : Int) ≤ 255 ∧
      (255 : Int) ≤ 53687067 ∧ run ⟨53687067, 10⟩ "print true;" = .error ⟨53687067⟩ := by
  exact ⟨⟨true, ["true"], [], true⟩, rfl, rfl, rfl, rfl, by decide, by decide, rfl⟩

end TernLang
