import TernLang.Proofs.Eval.Invariant
import TernLang.Proofs.Grammar.Spans
import TernLang.Proofs.Limits
import TernLang.Proofs.Parser.Lines
import TernLang.Proofs.Parser.Soundness.Statement
import TernLang.Proofs.Scope.Run
import TernLang.Proofs.Token.Lines

/-! # Every diagnostic has a place

**Every diagnostic has a line, and it is a line of the source text**
(`diagnostics_located`). A lexical error is where splitting the text stopped, a
mistake is on the line of a token, and a fault is on the line of a node of the
program, which is the line of a token that the node was read from.

Most faults come up without a line. They get one on the way out, from the first
node around them; nesting that is too deep passes all nodes and gets its line from
the call it happened in or from the statement at the top level.
-/

namespace TernLang

/-! ## No fault is left without a line -/

/-- The stop is reported with a line, if it is reported. -/
def Stop.HasLine : Stop → Prop
  | .fault _ line => line.isSome
  | .tooDeep => False
  | .outOfPasses => True

/-- Once a stop is located, it has a line, unless it is for want of nesting. -/
theorem Stop.hasLine_located (line : Nat) (stop : Stop) :
    stop.located line = .tooDeep ∨ (stop.located line).HasLine := by
  cases stop with
  | fault cause given =>
      cases given with
      | none => exact .inr rfl
      | some _ => exact .inr rfl
  | tooDeep => exact .inl rfl
  | outOfPasses => exact .inr trivial

theorem Stop.hasLine_atTopLevel {stop : Stop} (line : Nat)
    (lined : stop = .tooDeep ∨ stop.HasLine) : (stop.atTopLevel line).HasLine := by
  rcases lined with rfl | lined
  · exact rfl
  · cases stop with
    | fault cause given => exact lined
    | tooDeep => exact lined.elim
    | outOfPasses => trivial

namespace Eval

/-- A statement that stops has given the fault a line, unless the nesting was too
deep. -/
theorem execute_hasLine {limits : Limits} {room : Nat} {s : ScopeRef} {stmt : Stmt}
    {m after : Machine} {stop : Stop} (stopped : execute limits room s stmt m = .error stop after) :
    stop = .tooDeep ∨ stop.HasLine := by
  match room with
  | 0 | 1 =>
      unfold execute at stopped
      cases stopped
      exact .inl rfl
  | room + 2 =>
      -- whatever stopped the statement, it has passed the statement itself
      unfold execute mapStop at stopped
      split at stopped
      · cases stopped
      · cases stopped
        exact Stop.hasLine_located stmt.line _

/-- Whatever ends a program has a line: the program is told apart by its statements. -/
theorem executeProgram_hasLine {limits : Limits} {room : Nat} {s : ScopeRef} {stmts : List Stmt}
    {m after : Machine} {stop : Stop}
    (stopped : executeProgram limits room s stmts m = .error stop after) : stop.HasLine := by
  induction stmts generalizing m with
  | nil => cases stopped
  | cons stmt rest ih =>
      unfold executeProgram at stopped
      rw [bind_run] at stopped
      unfold mapStop at stopped
      cases first : execute limits room s stmt m with
      | ok completion next =>
          rw [first] at stopped
          cases completion with
          | normal => exact ih stopped
          | returned value line =>
              -- a return at the top level has the line of its statement
              cases stopped
              exact rfl
      | error inner next =>
          rw [first] at stopped
          cases stopped
          exact Stop.hasLine_atTopLevel stmt.line (execute_hasLine first)

/-! ## A fault is on the line of a node -/

/-- The functions of a run are from the program: the nodes of their bodies are among
its nodes. -/
def placement (places : Nat → Prop) : Invariant where
  Heaps h := ∀ c ∈ h.functions, Node.Placed places (Stmt.nodesAll c.body)
  Values _ := True
  Scopes _ := True
  Places := places
  constant _ := trivial
  receiver _ := trivial
  lookup _ _ _ := trivial
  owner _ _ _ := trivial
  define _ _ held _ _ := held
  items _ _ _ _ := trivial
  modifyItems held _ _ := held
  closure held _ found := ⟨trivial, held _ (Array.mem_of_getElem? found)⟩
  newScope held _ _ := ⟨held, trivial⟩
  newList held _ := ⟨held, trivial⟩
  newFunction := by
    intro h c held _ placed
    refine ⟨?_, trivial⟩
    intro other mem
    rcases Array.mem_push.mp mem with old | rfl
    · exact held other old
    · exact placed
  newNumber := by
    intro h x held
    unfold Heap.newNumber
    split
    · exact ⟨held, trivial⟩
    · exact ⟨held, trivial⟩
  newMethod _ _ held _ := ⟨held, trivial⟩

end Eval

/-- A failure of a run lies at one of the places of its program. -/
theorem execute_located (limits : Limits) {places : Nat → Prop} {stmts : List Stmt}
    (placed : Node.Placed places (Stmt.nodesAll stmts)) {diagnostic : Diagnostic}
    (failed : (execute limits stmts).1 = .failed diagnostic) :
    diagnostic.phase = .runtime ∧ ∃ line, diagnostic.line = some line ∧ places line := by
  have start : (Eval.placement places).Heaps freshGlobals.2 := by
    intro c mem
    have none : c ∈ (#[] : Array Closure) := mem
    simp at none
  have keeps := Eval.Invariant.executeProgram_keeps (I := Eval.placement places) limits
    (executionRoom limits.maxCallDepth) placed (s := freshGlobals.1) trivial
    (m := ⟨freshGlobals.2, #[], 0⟩) start
  unfold execute at failed
  cases ran : Eval.executeProgram limits (executionRoom limits.maxCallDepth) freshGlobals.1 stmts
      ⟨freshGlobals.2, #[], 0⟩ with
  | ok _ machine => simp [ran] at failed
  | error stop machine =>
      have lined := Eval.executeProgram_hasLine ran
      rw [ran] at keeps
      simp only [ran] at failed
      cases stop with
      | fault cause given =>
          cases failed
          obtain ⟨line, rfl⟩ := Option.isSome_iff_exists.mp lined
          exact ⟨rfl, line, rfl, keeps.2⟩
      | tooDeep => exact lined.elim
      | outOfPasses => cases failed

/-! ## The nodes of a program that parses -/

/-- Without a mistake, all nodes were read from the tokens. -/
theorem parse_spanned {room : Nat} (enough : 5 ≤ room) {tokens : List Token}
    (accepted : (parse room tokens).errors = []) :
    Grammar.Spanned tokens (Stmt.nodesAll (parse room tokens).statements) := by
  obtain ⟨read, d, reads, -, phrases, -⟩ := Parse.reads_of_accepted enough accepted
  have front : read <+: tokens := ⟨d.rest, reads.rest.symm⟩
  exact phrases.spanned.within front.isInfix

/-! ## Diagnostics -/

/-- The program that a source text is parsed to. -/
def programOf (maxCallDepth : Int) (source : String) : List Stmt :=
  (parse (parsingRoom maxCallDepth) (lex source).tokens).statements

/-- What a line has to do with what a stage has read. -/
def Phase.Names (maxCallDepth : Int) (source : String) (line : Nat) : Phase → Prop
  | lex => ∃ error, (TernLang.lex source).error? = some error ∧ error.line = line
  | parse => ∃ token ∈ (TernLang.lex source).tokens, token.line = line
  | runtime => ∃ node ∈ Stmt.nodesAll (programOf maxCallDepth source), node.line = line ∧
      Grammar.SpannedIn (TernLang.lex source).tokens node

/-- The diagnostic has a line of the source text, which is that of something the
stage has read. -/
def Diagnostic.LocatedIn (maxCallDepth : Int) (source : String) (diagnostic : Diagnostic) : Prop :=
  ∃ line, diagnostic.line = some line ∧ OnLine 1 source.toList line ∧
    diagnostic.phase.Names maxCallDepth source line

/-- A text that is analyzed has a lexical error, or it splits up to its end and is
parsed. -/
theorem analyze_cases {maxCallDepth : Int} {source : String} {analysis : Analysis}
    (analyzed : analyze maxCallDepth source = .ok analysis) :
    (∃ error, (lex source).error? = some error ∧ analysis = ⟨[], [.ofLexError error]⟩) ∨
    ((lex source).error? = none ∧ analysis = ⟨programOf maxCallDepth source,
      (parse (parsingRoom maxCallDepth) (lex source).tokens).errors.map .ofSyntaxError⟩) := by
  unfold analyze at analyzed
  cases lexed : (lex source).error? with
  | some error =>
      simp only [lexed] at analyzed
      cases analyzed
      exact .inl ⟨error, rfl, rfl⟩
  | none =>
      simp only [lexed] at analyzed
      split at analyzed
      · cases analyzed
      · cases analyzed
        exact .inr ⟨rfl, rfl⟩

/-- A text without lexical errors is parsed to a program and the mistakes in it. -/
theorem analyze_eq_ok {maxCallDepth : Int} {source : String} (lexes : (lex source).error? = none)
    (allowed : nestingBudget maxCallDepth ≤ maxNesting) :
    analyze maxCallDepth source = .ok ⟨programOf maxCallDepth source,
      (parse (parsingRoom maxCallDepth) (lex source).tokens).errors.map .ofSyntaxError⟩ := by
  simp only [analyze, lexes, if_neg (Nat.not_lt_of_le allowed), programOf]

/-- A text that is split is accepted if its tokens are, and if its limit is. -/
theorem analyze_eq_ok_nil_iff {maxCallDepth : Int} {source : String} {statements : List Stmt}
    (lexes : (lex source).error? = none) :
    analyze maxCallDepth source = .ok ⟨statements, []⟩ ↔
      nestingBudget maxCallDepth ≤ maxNesting ∧
        parse (parsingRoom maxCallDepth) (lex source).tokens = ⟨statements, []⟩ := by
  unfold analyze
  simp only [lexes]
  by_cases refused : maxNesting < nestingBudget maxCallDepth
  · simp [refused, Nat.not_le_of_lt refused]
  · cases parsed : parse (parsingRoom maxCallDepth) (lex source).tokens
    simp [if_neg refused, Nat.le_of_not_lt refused]

/-- Each diagnostic of an analysis has a place in the text. -/
theorem analyze_located {maxCallDepth : Int} {source : String} {analysis : Analysis}
    (analyzed : analyze maxCallDepth source = .ok analysis) :
    ∀ diagnostic ∈ analysis.diagnostics, diagnostic.LocatedIn maxCallDepth source := by
  obtain ⟨tokens, errors⟩ := lex_lines source
  intro diagnostic mem
  rcases analyze_cases analyzed with ⟨error, found, rfl⟩ | ⟨split, rfl⟩
  · cases List.mem_singleton.mp mem
    exact ⟨error.line, rfl, errors error found, error, found, rfl⟩
  · obtain ⟨error, noted, rfl⟩ := List.mem_map.mp mem
    obtain ⟨token, read, line⟩ := error_line_mem (exists_endOfInput split) _ error noted
    exact ⟨error.line, rfl, line ▸ tokens token read, token, read, line⟩

/-- A program without mistakes fails on the line of one of its nodes. -/
theorem failure_located {limits : Limits} {source : String} {stmts : List Stmt}
    (analyzed : analyze limits.maxCallDepth source = .ok ⟨stmts, []⟩) {diagnostic : Diagnostic}
    (failed : (execute limits stmts).1 = .failed diagnostic) :
    diagnostic.LocatedIn limits.maxCallDepth source := by
  obtain ⟨tokens, -⟩ := lex_lines source
  rcases analyze_cases analyzed with ⟨_, _, parsed⟩ | ⟨_, parsed⟩
  · cases parsed
  · obtain ⟨rfl, mistakes⟩ := Analysis.mk.inj parsed
    have accepted := List.map_eq_nil_iff.mp mistakes.symm
    have spanned := parse_spanned (five_le_parsingRoom limits.maxCallDepth) accepted
    have placed : Node.Placed (Phase.Names limits.maxCallDepth source · .runtime)
        (Stmt.nodesAll (programOf limits.maxCallDepth source)) :=
      fun node mem other => ⟨node, mem, rfl, spanned node mem other⟩
    obtain ⟨phase, line, given, names⟩ := execute_located limits placed failed
    refine ⟨line, given, ?_, phase ▸ names⟩
    obtain ⟨node, -, rfl, span, inside, -, token, read, same⟩ := names
    exact same ▸ tokens token (inside.subset read)

/-- **Every diagnostic is located**: whatever an interpreter reports of a source text
when it runs or checks it has a line of that text. A lexical error is on the line
where the text could not be split further, a mistake is on the line of a token, and
a fault is on the line of a node of the program, which is the line of a token among
those that the node was read from. -/
theorem diagnostics_located (source : String) :
    (∀ interpreter report after, Interpreter.run interpreter source = .ok (report, after) →
      ∀ diagnostic ∈ report.diagnostics,
        diagnostic.LocatedIn interpreter.limits.maxCallDepth source) ∧
    (∀ maxCallDepth diagnostics, check maxCallDepth source = .ok diagnostics →
      ∀ diagnostic ∈ diagnostics, diagnostic.LocatedIn maxCallDepth source) := by
  constructor
  · intro interpreter report after ran diagnostic mem
    unfold Interpreter.run at ran
    cases analyzed : analyze interpreter.limits.maxCallDepth source with
    | error refused => simp [analyzed, Except.map] at ran
    | ok analysis =>
        have reported : interpreter.runAnalyzed analysis = (report, after) := by
          simpa [analyzed, Except.map] using ran
        obtain ⟨stmts, mistakes⟩ := analysis
        cases mistakes with
        | nil =>
            have failed : (execute interpreter.limits stmts).1 = .failed diagnostic :=
              mem_diagnostics_runAnalyzed (by rwa [reported])
            exact failure_located analyzed failed
        | cons first others =>
            -- nothing is executed and the mistakes are reported as they are
            have same : report.diagnostics = first :: others := by
              rw [show report = (interpreter.runAnalyzed ⟨stmts, first :: others⟩).1 by rw [reported]]
              rfl
            exact analyze_located analyzed diagnostic (by rwa [same] at mem)
  · intro maxCallDepth diagnostics checked diagnostic mem
    unfold check at checked
    cases analyzed : analyze maxCallDepth source with
    | error refused => simp [analyzed, Except.map] at checked
    | ok analysis =>
        have same : analysis.diagnostics = diagnostics := by
          simpa [analyzed, Except.map] using checked
        exact analyze_located analyzed diagnostic (by rwa [same])

/-- A fault on the second line of a text, and a mistake that shows only where the text
ends. -/
theorem diagnostics_located_secondLine :
    let fault : Diagnostic := ⟨.runtime, some 2, "Cannot pop from an empty list", "EmptyListError"⟩
    (∃ after, (Interpreter.new ⟨255, 10⟩).run "print true;\n[].pop();" =
        .ok (⟨false, ["true"], [fault], true⟩, after) ∧
      fault.LocatedIn 255 "print true;\n[].pop();") ∧
    ∃ mistake, check 255 "print true\n" = .ok [mistake] ∧ mistake.line = some 2 ∧
      mistake.LocatedIn 255 "print true\n" := by
  intro fault
  refine ⟨⟨_, rfl, ?_⟩, _, rfl, rfl, ?_⟩
  · exact (diagnostics_located _).1 (Interpreter.new ⟨255, 10⟩) _ _ rfl fault List.mem_cons_self
  · exact (diagnostics_located _).2 255 _ rfl _ List.mem_cons_self

end TernLang
