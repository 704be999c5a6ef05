import TernLang.Proofs.Declarations
import TernLang.Proofs.Eval.Returns

/-! # A return belongs to the nearest call

**Whatever blocks, branches and loops are around a `return`, it ends the body of the
call it is executed in, with its value and on its machine, and nothing behind it in
that body is started** (`returns_belong_to_calls`). Only a `return` that is in no
function can leave the statements of the program, and it is the only thing that is
reported as such: the report names its line, and the run ends on the machine that it
leaves.

Which `return` can be executed outside of calls is visible in the text: the tasks that
are started without entering a call carry out statements that are in no function
declaration of the task (`ReachesFrom.own`).
-/

namespace TernLang

/-! ## Statements in no function -/

mutual

/-- The statement and the statements inside of it, but not those of a function that is
declared there. -/
def Stmt.own : Stmt → List Stmt
  | .block body line => .block body line :: Stmt.ownAll body
  | .ifElse condition thenBranch elseBranch line =>
      .ifElse condition thenBranch elseBranch line ::
        (thenBranch.own ++ Stmt.ownOption elseBranch)
  | .whileLoop condition body line => .whileLoop condition body line :: body.own
  | .expression expr line => [.expression expr line]
  | .varDecl name initial line => [.varDecl name initial line]
  | .print expr line => [.print expr line]
  | .returnValue value line => [.returnValue value line]
  | .funDecl name params body line => [.funDecl name params body line]

/-- The statements of several statements that are in no function declared there. -/
def Stmt.ownAll : List Stmt → List Stmt
  | [] => []
  | stmt :: rest => stmt.own ++ Stmt.ownAll rest

/-- The statements of a branch that may be missing. -/
def Stmt.ownOption : Option Stmt → List Stmt
  | none => []
  | some stmt => stmt.own

end

namespace Eval

variable {limits : Limits}

/-- The statements that a task has to carry out itself, without a call. -/
def Task.own : Task → List Stmt
  | .stmt _ _ one => one.own
  | .stmts _ _ all => Stmt.ownAll all
  | .loop _ _ _ body _ => body.own
  | .program _ _ all => Stmt.ownAll all
  | .expr _ _ _ | .exprs _ _ _ | .call _ _ _ => []

/-- A task that is started without a call has nothing to carry out that its starter has
not. -/
theorem Starts.own {task task' : Task} {m m' : Machine}
    (starts : Starts limits task m 0 task' m') : task'.own ⊆ task.own := by
  cases starts with
  | block ran => simp [Task.own, Stmt.own]
  | branch ran taken =>
      rename_i condition thenBranch elseBranch line value branch
      simp only [Task.own, Stmt.own]
      refine List.subset_cons_of_subset _ ?_
      by_cases truthy : value.truthy = true
      · rw [if_pos truthy] at taken
        cases taken
        exact List.subset_append_left _ _
      · rw [if_neg truthy] at taken
        cases taken
        exact List.subset_append_right _ _
  | loop => simp [Task.own, Stmt.own]
  | statement | topLevel => simp [Task.own, Stmt.ownAll]
  | statements | program => simp [Task.own, Stmt.ownAll]
  | pass | again => simp [Task.own]
  | first | second | lastBound | elements | arguments | call | head | tail | operand | condition =>
      exact List.nil_subset _

/-- Without entering a call, a task comes only to statements of its own. -/
theorem ReachesFrom.own {task task' : Task} {m m' : Machine} {calls : Nat}
    (reached : ReachesFrom limits task m calls task' m') (same : calls = 0) :
    task'.own ⊆ task.own := by
  induction reached with
  | start => exact List.Subset.refl _
  | step _ starts ih =>
      obtain ⟨rfl, rfl⟩ := Nat.add_eq_zero_iff.mp same
      exact List.Subset.trans starts.own (ih rfl)

/-- The `return` that a task comes to is in no function declared there. -/
theorem ComesToReturn.own {task : Task} {m after : Machine} {value : Option Expr} {line : Nat}
    {v : Value} (comes : ComesToReturn limits task m value line v after) :
    .returnValue value line ∈ task.own := by
  obtain ⟨room, s, n, reached, -⟩ := comes
  exact reached.own rfl (by simp [Task.own, Stmt.own])

/-! ## What is behind a statement -/

/-- `Behind whole first next`: once the task `whole` has carried out the statement
`first`, `next` is what is left of it. -/
inductive Task.Behind : (whole first next : Task) → Prop
  | statements {room s stmt rest} :
      Behind (.stmts room s (stmt :: rest)) (.stmt room s stmt) (.stmts room s rest)
  | program {room s stmt rest} :
      Behind (.program room s (stmt :: rest)) (.stmt room s stmt) (.program room s rest)
  | loop {room s condition body passes} :
      Behind (.loop room s condition body (passes + 1)) (.stmt room s body)
        (.loop room s condition body passes)

/-- What is behind a statement that ends with a `return` is not started. -/
theorem Task.Behind.not_starts {whole first next : Task} (behind : Behind whole first next)
    {m m' after : Machine} {v : Value} {line : Nat} (starts : Starts limits whole m 0 first m')
    (returns : first.Returns limits v line after m') {calls : Nat} {n : Machine} :
    ¬ Starts limits whole m calls next n := by
  intro later
  cases behind with
  | statements =>
      cases starts
      cases later with
      | statements ran =>
          have same := ran.symm.trans returns
          cases same
  | program =>
      cases starts
      cases later with
      | program ran =>
          have same := ran.symm.trans returns
          cases same
  | loop =>
      cases starts with
      | pass tested truthy =>
          cases later with
          | again tested' truthy' ran =>
              -- both started from the same test of the condition
              cases tested.symm.trans tested'
              have same := ran.symm.trans returns
              cases same

/-! ## Calls and programs -/

/-- A call whose body comes to a `return` gives its value, on the machine that the
`return` has left but for the call that is over. -/
theorem apply_of_comesToReturn {room : Nat} {ref : FunctionRef} {values : List Value}
    {m n after : Machine} {c : Closure} {scope : ScopeRef} {value : Option Expr} {line : Nat}
    {v : Value} (found : m.heap.functions[ref.id]? = some c)
    (runs : RunsBody limits c values m scope n)
    (comes : ComesToReturn limits (.stmts room scope c.body) n value line v after) :
    apply limits (room + 3) (.function ref) values m =
      .ok v { after with callDepth := after.callDepth - 1 } := by
  obtain ⟨arity, below, here⟩ := runsBody_iff.mp runs
  have read : closure ref m = .ok c m := by simp [closure, found]
  have ended : sequence (execute limits room scope) c.body n = .ok (.returned v line) after :=
    comes.returns
  rw [apply, bind_run_ok read, callFunction_run arity (not_le.mpr below), ← here, ended]
  rfl

end Eval

/-- The run of a program comes to a `return` outside of all calls. -/
def ReturnsIllegally (limits : Limits) (stmts : List Stmt) : Option Expr → Nat → Value →
    Machine → Prop :=
  Eval.ComesToReturn limits (.program (executionRoom limits.maxCallDepth) freshGlobals.1 stmts)
    Eval.startMachine

/-- No fault but the one of a `return` is reported as an illegal one. -/
theorem illegal_of_kind {cause : Fault} (kind : cause.kind.text = "IllegalReturn") :
    cause = .returnOutsideFunction := by
  cases cause with
  | returnOutsideFunction => rfl
  | _ => simp [Fault.kind, FaultKind.text] at kind

/-- A program fails with an illegal `return` only if it comes to one, and then it ends on
the machine that this `return` leaves. -/
theorem returnsIllegally_of_execute {limits : Limits} {stmts : List Stmt} {diagnostic : Diagnostic}
    (failed : (execute limits stmts).1 = .failed diagnostic)
    (kind : diagnostic.kind = "IllegalReturn") :
    ∃ value line v after, ReturnsIllegally limits stmts value line v after ∧
      diagnostic = .ofFault .returnOutsideFunction (some line) ∧
      execute limits stmts = (.failed diagnostic, after) := by
  rw [execute_eq] at failed ⊢
  cases ended : Eval.executeProgram limits (executionRoom limits.maxCallDepth) freshGlobals.1 stmts
      Eval.startMachine with
  | ok _ machine =>
      rw [ended] at failed
      cases failed
  | error stop machine =>
      rw [ended] at failed
      cases stop with
      | fault cause place =>
          cases failed
          obtain rfl := illegal_of_kind kind
          obtain ⟨line, rfl⟩ := Option.isSome_iff_exists.mp (Eval.executeProgram_hasLine ended)
          obtain ⟨value, v, comes⟩ := Eval.executeProgram_illegal_iff.mp ended
          exact ⟨value, line, v, machine, comes, rfl, rfl⟩
      | tooDeep =>
          cases failed
          simp [Diagnostic.ofFault, Fault.kind, FaultKind.text] at kind
      | outOfPasses => cases failed

/-- A run that reports an illegal `return` has executed a program that came to one. -/
theorem returnsIllegally_of_run {limits : Limits} {source : String} {report : Report}
    (ran : run limits source = .ok report) {diagnostic : Diagnostic}
    (mem : diagnostic ∈ report.diagnostics) (kind : diagnostic.kind = "IllegalReturn") :
    ∃ stmts value line v after, analyze limits.maxCallDepth source = .ok ⟨stmts, []⟩ ∧
      ReturnsIllegally limits stmts value line v after ∧
      diagnostic = .ofFault .returnOutsideFunction (some line) ∧
      execute limits stmts = (.failed diagnostic, after) ∧
      report = ⟨false, after.output.toList, [diagnostic], true⟩ := by
  rw [run_eq] at ran
  cases analyzed : analyze limits.maxCallDepth source with
  | error refused =>
      rw [analyzed] at ran
      cases ran
  | ok analysis =>
      rw [analyzed] at ran
      cases ran
      obtain ⟨stmts, diagnostics⟩ := analysis
      replace mem : diagnostic ∈
        ((Interpreter.new limits).runAnalyzed ⟨stmts, diagnostics⟩).1.diagnostics := mem
      by_cases clean : diagnostics = []
      · subst clean
        obtain ⟨value, line, v, after, comes, same, ended⟩ :=
          returnsIllegally_of_execute (mem_diagnostics_runAnalyzed mem) kind
        replace ended : execute limits stmts = (.failed diagnostic, after) := ended
        refine ⟨stmts, value, line, v, after, rfl, comes, same, ended, ?_⟩
        simp [Interpreter.runAnalyzed, Interpreter.new, ended]
      · -- the mistakes of a text have other kinds
        have mistakes : (!diagnostics.isEmpty) = true := by simp [clean]
        rw [Interpreter.runAnalyzed, if_pos mistakes] at mem
        rcases analyze_cases analyzed with ⟨error, -, same⟩ | ⟨-, same⟩
        · cases same
          obtain rfl := List.mem_singleton.mp mem
          simp [Diagnostic.ofLexError] at kind
        · cases same
          obtain ⟨error, -, rfl⟩ := List.mem_map.mp mem
          simp [Diagnostic.ofSyntaxError] at kind

/-- **A `return` belongs to the nearest call.** A statement ends with a `return` exactly
if it comes to one without entering a call: no `return` leaves the call it is executed
in. A body that comes to a `return` ends the call with its value, on the machine that
it leaves, and no call ever reports a `return`. Whatever is behind a statement that
comes to a `return`, in its list or as the next pass of its loop, is not started.

A run reports an illegal `return` only if its program has one that is in no function and
comes to it outside of all calls; it then reports the line of this `return` and nothing
else, and ends on the machine that the `return` leaves. So a program that has no
`return` outside of functions never reports one. -/
theorem returns_belong_to_calls (limits : Limits) :
    (∀ room s stmt m v line after,
      Eval.execute limits room s stmt m = .ok (.returned v line) after ↔
        ∃ value, Eval.ComesToReturn limits (.stmt room s stmt) m value line v after) ∧
    (∀ room ref values m c scope n, m.heap.functions[ref.id]? = some c →
      Eval.RunsBody limits c values m scope n → ∀ value line v after,
        Eval.ComesToReturn limits (.stmts room scope c.body) n value line v after →
          Eval.apply limits (room + 3) (.function ref) values m =
            .ok v { after with callDepth := after.callDepth - 1 }) ∧
    (∀ room callee values m line after, Eval.apply limits room callee values m ≠
      .error (.fault .returnOutsideFunction line) after) ∧
    (∀ whole first next m n value line v after, Eval.Task.Behind whole first next →
      Eval.Starts limits whole m 0 first n →
      Eval.ComesToReturn limits first n value line v after →
        ∀ calls o, ¬ Eval.Starts limits whole m calls next o) ∧
    (∀ source report, run limits source = .ok report → ∀ diagnostic ∈ report.diagnostics,
      diagnostic.kind = "IllegalReturn" →
        ∃ stmts value line v after, analyze limits.maxCallDepth source = .ok ⟨stmts, []⟩ ∧
          .returnValue value line ∈ Stmt.ownAll stmts ∧
          ReturnsIllegally limits stmts value line v after ∧
          diagnostic = ⟨.runtime, some line, "Cannot return from top-level code", "IllegalReturn"⟩ ∧
          execute limits stmts = (.failed diagnostic, after) ∧
          report = ⟨false, after.output.toList, [diagnostic], true⟩) ∧
    (∀ source stmts, analyze limits.maxCallDepth source = .ok ⟨stmts, []⟩ →
      (∀ value line, .returnValue value line ∉ Stmt.ownAll stmts) →
        ∃ report, run limits source = .ok report ∧
          ∀ diagnostic ∈ report.diagnostics, diagnostic.kind ≠ "IllegalReturn") := by
  refine ⟨fun _ _ _ _ _ _ _ => Eval.execute_returned_iff, ?_, ?_, ?_, ?_, ?_⟩
  · intro room ref values m c scope n found runs value line v after comes
    exact Eval.apply_of_comesToReturn found runs comes
  · intro room callee values m line after illegal
    exact Eval.spares_apply limits room callee values m _ line after illegal rfl
  · intro whole first next m n value line v after behind starts comes calls o
    exact behind.not_starts starts comes.returns
  · intro source report ran diagnostic mem kind
    obtain ⟨stmts, value, line, v, after, analyzed, comes, same, ended, shown⟩ :=
      returnsIllegally_of_run ran mem kind
    exact ⟨stmts, value, line, v, after, analyzed, comes.own, comes, same, ended, shown⟩
  · intro source stmts analyzed inside
    have ran : run limits source = .ok ((Interpreter.new limits).runAnalyzed ⟨stmts, []⟩).1 := by
      rw [run_eq, analyzed]
      rfl
    refine ⟨_, ran, ?_⟩
    intro diagnostic mem kind
    -- the return that is reported would be one of the program outside of functions
    obtain ⟨stmts', value, line, v, after, analyzed', comes, -⟩ :=
      returnsIllegally_of_run ran mem kind
    rw [analyzed] at analyzed'
    cases analyzed'
    exact inside value line comes.own

/-- In the function the `return` ends the loop and the block around it, so that nothing
but its value is printed; at the top level it ends the program. -/
theorem returns_belong_to_calls_loop :
    let source := "def f() { while (true) { { return 1; } print 2; } }\nprint f();\n" ++
      "if (true) { return f(); }\nprint 3;"
    ∃ stmts value line v after, analyze 255 source = .ok ⟨stmts, []⟩ ∧
      .returnValue value line ∈ Stmt.ownAll stmts ∧
      ReturnsIllegally ⟨255, 10⟩ stmts value line v after ∧ line = 3 ∧
      after.output = #["1"] := by
  intro source
  have ran : run ⟨255, 10⟩ source = .ok ⟨false, ["1"],
      [⟨.runtime, some 3, "Cannot return from top-level code", "IllegalReturn"⟩], true⟩ := by
    decide +kernel
  obtain ⟨-, -, -, -, illegal, -⟩ := returns_belong_to_calls ⟨255, 10⟩
  obtain ⟨stmts, value, line, v, after, analyzed, own, comes, same, -, shown⟩ :=
    illegal source _ ran _ List.mem_cons_self rfl
  simp only [Diagnostic.mk.injEq, Option.some.injEq, true_and, and_true] at same
  simp only [Report.mk.injEq, true_and] at shown
  refine ⟨stmts, value, line, v, after, analyzed, own, comes, same.symm, ?_⟩
  exact Array.toList_inj.mp shown.1.symm

end TernLang
