import TernLang.Proofs.Eval.Provenance

/-! # Only a declaration adds a name

**Whatever a program does, the only change to the frames that exist is that a
declaration which completes declares its name in its own scope**
(`declarations_add_names`). This holds in every state that the run comes to, through
calls, closures and loops, and however the run ends. So the names of the outermost
scope after a run are the built-in ones and those that the statements at the top
level have declared, each where it was declared first.

The grammar has its part in this, because it never puts a declaration alone in a
branch or under a loop, where its scope would be that of the statement around it.
-/

namespace TernLang

namespace Eval

variable {limits : Limits}

/-! ## The whole run -/

/-- The statements in front ran to their end and left the machine `m'`, on which the
next one did not complete and left the machine `after`. -/
structure FailsAfter (limits : Limits) (room : Nat) (s : ScopeRef) (m : Machine)
    (before : List Stmt) (failing : Stmt) (m' after : Machine) : Prop where
  ran : executeProgram limits room s before m = .ok () m'
  failed : ∀ n, execute limits room s failing m' ≠ .ok .normal n
  left : machineAfter (execute limits room s failing m') = after

/-- Names can be declared one part after the other. -/
theorem declaredIn_append (s : ScopeRef) (names more : List String) (frames : List Frame) :
    declaredIn s (names ++ more) frames = declaredIn s more (declaredIn s names frames) := by
  unfold declaredIn
  rw [List.modify_modify_eq]
  congr 1
  funext frame
  exact List.foldl_append

/-- The program has stopped at one of its statements, and those in front of it have
declared their names. -/
def StopsWithin (limits : Limits) (room : Nat) (s : ScopeRef) (stmts : List Stmt)
    (m after : Machine) : Prop :=
  ∃ before failing rest m', stmts = before ++ failing :: rest ∧
    FailsAfter limits room s m before failing m' after ∧
    declaredIn s (before.flatMap Stmt.declared) m.heap.frames <+: after.heap.frames

section StopsWithin

variable {room : Nat} {s : ScopeRef} {stmt : Stmt} {rest : List Stmt} {m n after : Machine}

/-- The first statement is the one that does not complete. -/
theorem stopsWithin_head (failed : ∀ n, execute limits room s stmt m ≠ .ok .normal n)
    (left : machineAfter (execute limits room s stmt m) = after)
    (kept : m.heap.frames <+: after.heap.frames) :
    StopsWithin limits room s (stmt :: rest) m after := by
  refine ⟨[], stmt, rest, m, rfl, ⟨rfl, failed, left⟩, ?_⟩
  rwa [List.flatMap_nil, declaredIn_nil]

theorem executeProgram_cons (ran : execute limits room s stmt m = .ok .normal n) :
    executeProgram limits room s (stmt :: rest) m = executeProgram limits room s rest n := by
  have passed : mapStop (Stop.atTopLevel stmt.line) (execute limits room s stmt) m =
      .ok .normal n := by simp [mapStop, ran]
  rw [executeProgram, bind_run_ok passed]

/-- What the first statement declares comes in front of what the others do. -/
theorem declaredIn_cons
    (front : declaredIn s stmt.declared m.heap.frames <+: n.heap.frames) (names : List String) :
    declaredIn s (stmt.declared ++ names) m.heap.frames <+: declaredIn s names n.heap.frames := by
  rw [declaredIn_append]
  exact isPrefix_modify front s.id _

/-- A program stops within the rest where it does not stop in its first statement. -/
theorem StopsWithin.cons (ran : execute limits room s stmt m = .ok .normal n)
    (front : declaredIn s stmt.declared m.heap.frames <+: n.heap.frames)
    (stops : StopsWithin limits room s rest n after) :
    StopsWithin limits room s (stmt :: rest) m after := by
  obtain ⟨before, failing, others, m', rfl, fails, kept⟩ := stops
  refine ⟨stmt :: before, failing, others, m', rfl, ⟨?_, fails.failed, fails.left⟩, ?_⟩
  · rw [executeProgram_cons ran]
    exact fails.ran
  · rw [List.flatMap_cons]
    exact (declaredIn_cons front _).trans kept

end StopsWithin

/-- A program that runs to its end declares all names of its statements, and one that
stops declares those in front of the statement it stops at. -/
theorem executeProgram_declares {room : Nat} {s : ScopeRef} {stmts : List Stmt}
    {nodes : List Node} (housed : Node.Housed nodes) (inside : Stmt.nodesAll stmts ⊆ nodes)
    {m : Machine} (made : m.heap.MadeOf nodes) :
    match executeProgram limits room s stmts m with
    | .ok _ after =>
        declaredIn s (stmts.flatMap Stmt.declared) m.heap.frames <+: after.heap.frames
    | .error _ after => StopsWithin limits room s stmts m after := by
  induction stmts generalizing m with
  | nil =>
      show declaredIn s [] m.heap.frames <+: m.heap.frames
      rw [declaredIn_nil]
  | cons stmt rest ih =>
      rw [Stmt.nodesAll, List.append_subset] at inside
      have step := execute_declares housed limits room s inside.1 m made
      -- the next statement completes, returns at the top level, or stops
      cases ran : execute limits room s stmt m with
      | ok completion n =>
          rw [ran] at step
          cases completion with
          | normal =>
              have made' : n.heap.MadeOf nodes := step.made
              have later := ih inside.2 made'
              rw [executeProgram_cons ran]
              cases ranRest : executeProgram limits room s rest n with
              | ok _ after =>
                  rw [ranRest] at later
                  show declaredIn s ((stmt :: rest).flatMap Stmt.declared) m.heap.frames <+: _
                  rw [List.flatMap_cons]
                  exact (declaredIn_cons step.front _).trans later
              | error stop after =>
                  rw [ranRest] at later
                  exact later.cons ran step.front
          | returned value line =>
              have passed : mapStop (Stop.atTopLevel stmt.line) (execute limits room s stmt) m =
                  .ok (.returned value line) n := by simp [mapStop, ran]
              rw [executeProgram, bind_run_ok passed]
              exact stopsWithin_head (by rw [ran]; exact nofun) (by rw [ran]; rfl) step.front
      | error inner n =>
          rw [ran] at step
          have passed : mapStop (Stop.atTopLevel stmt.line) (execute limits room s stmt) m =
              .error (inner.atTopLevel stmt.line) n := by simp [mapStop, ran]
          rw [executeProgram, bind_run_error passed]
          exact stopsWithin_head (by rw [ran]; exact nofun) (by rw [ran]; rfl) step.front

end Eval

/-! ## The names of a run -/

theorem startMachine_frames : Eval.startMachine.heap.frames = [⟨none, ["hash"]⟩] := by
  rfl

/-- What is in front after names were declared in the outermost scope. -/
theorem globals_of_declaredIn {names : List String} {frames : List Frame}
    (front : Eval.declaredIn freshGlobals.1 names Eval.startMachine.heap.frames <+: frames) :
    frames[freshGlobals.1.id]? = some ⟨none, ("hash" :: names).eraseDups⟩ := by
  have declared := Frame.declareAll_eq_eraseDups none ["hash"] names
  have first := List.prefix_iff_getElem?.mp front 0 (by simp [Eval.declaredIn, startMachine_frames])
  rw [show freshGlobals.1.id = 0 from rfl, first]
  simp only [Eval.declaredIn, startMachine_frames]
  exact congrArg some declared

/-- A run starts on the machine that has nothing but the global scope. -/
theorem execute_eq (limits : Limits) (stmts : List Stmt) :
    execute limits stmts =
      match Eval.executeProgram limits (executionRoom limits.maxCallDepth) freshGlobals.1 stmts
        Eval.startMachine with
      | .ok _ machine => (.completed, machine)
      | .error stop machine => (.ofStop stop, machine) :=
  rfl

/-- A run shows what a new interpreter makes of the analysis. -/
theorem run_eq (limits : Limits) (source : String) :
    run limits source = (analyze limits.maxCallDepth source).map
      fun analysis => ((Interpreter.new limits).runAnalyzed analysis).1 := by
  show Except.map Prod.fst ((analyze limits.maxCallDepth source).map _) = _
  cases analyze limits.maxCallDepth source <;> rfl

/-- What an interpreter shows of a program without mistakes is how its execution
ended. -/
theorem runAnalyzed_of_executeProgram (interpreter : Interpreter) (stmts : List Stmt) :
    (interpreter.runAnalyzed ⟨stmts, []⟩).2.globals = freshGlobals.1 ∧
    match Eval.executeProgram interpreter.limits
      (executionRoom interpreter.limits.maxCallDepth) freshGlobals.1 stmts Eval.startMachine with
    | .ok _ machine => (interpreter.runAnalyzed ⟨stmts, []⟩).1.ok = true ∧
        (interpreter.runAnalyzed ⟨stmts, []⟩).2.heap = machine.heap
    | .error _ machine => (interpreter.runAnalyzed ⟨stmts, []⟩).1.ok = false ∧
        (interpreter.runAnalyzed ⟨stmts, []⟩).2.heap = machine.heap := by
  cases ended : Eval.executeProgram interpreter.limits
      (executionRoom interpreter.limits.maxCallDepth) freshGlobals.1 stmts Eval.startMachine with
  | ok _ machine =>
      have done : execute interpreter.limits stmts = (.completed, machine) := by
        rw [execute_eq, ended]
      simp [Interpreter.runAnalyzed, done]
  | error stop machine =>
      have done : execute interpreter.limits stmts = (.ofStop stop, machine) := by
        rw [execute_eq, ended]
      cases stop <;> simp [Interpreter.runAnalyzed, done, Ending.ofStop]

/-- **Only a declaration adds a name, and only to its own frame.** In every state that
the run of a program comes to, evaluating any expression leaves the frames that are
there, and so does executing any statement, of the program or another one, but for
the name of a declaration that completes. After a run that completes, the outermost
frame has the first occurrences of the built-in name and of the names that the
statements of the program declare; after a run that does not, of those in front of
the statement it has failed at. -/
theorem declarations_add_names (interpreter : Interpreter) {source : String} {stmts : List Stmt}
    (analyzed : analyze interpreter.limits.maxCallDepth source = .ok ⟨stmts, []⟩) :
    (∀ calls task m, Eval.Reaches interpreter.limits stmts calls task m →
      (∀ room s e, m.heap.frames <+:
        (Eval.machineAfter (Eval.evaluate interpreter.limits room s e m)).heap.frames) ∧
      (∀ room s stmt, (task = .stmt room s stmt ∨ ∃ tokens, Grammar.Declaration tokens stmt) →
        Eval.framesAfter s stmt.declared m.heap.frames
            (Eval.execute interpreter.limits room s stmt m) <+:
          (Eval.machineAfter (Eval.execute interpreter.limits room s stmt m)).heap.frames)) ∧
    (∃ report after, interpreter.run source = .ok (report, after) ∧
      (report.ok = true → after.heap.frames[after.globals.id]? =
        some ⟨none, ("hash" :: stmts.flatMap Stmt.declared).eraseDups⟩) ∧
      (report.ok = false → ∃ before failing rest m' machine,
        stmts = before ++ failing :: rest ∧
        Eval.FailsAfter interpreter.limits (executionRoom interpreter.limits.maxCallDepth)
          freshGlobals.1 Eval.startMachine before failing m' machine ∧
        after.heap = machine.heap ∧
        after.heap.frames[after.globals.id]? =
          some ⟨none, ("hash" :: before.flatMap Stmt.declared).eraseDups⟩)) := by
  have housed := housed_of_analyze analyzed
  refine ⟨?_, ?_⟩
  · intro calls task m reached
    obtain ⟨inside, made⟩ := reached.madeOf housed
    refine ⟨?_, ?_⟩
    · intro room s e
      exact (Eval.evaluate_keepsFrames housed interpreter.limits room s e m made).front
    · intro room s stmt possible
      rcases possible with rfl | ⟨tokens, declaration⟩
      · exact (Eval.execute_declares housed interpreter.limits room s inside m made).front
      · -- the nodes of the statement are added to those of the program
        have housed' := (Node.housed_append stmt.nodes _).mpr
          ⟨declaration.spanned.housed, housed⟩
        have made' : m.heap.MadeOf (stmt.nodes ++ Stmt.nodesAll stmts) :=
          fun c mem => List.subset_append_of_subset_right _ (made c mem)
        exact (Eval.execute_declares housed' interpreter.limits room s
          (List.subset_append_left _ _) m made').front
  · -- the run is the program on the fresh globals, whose frame has the built-in name
    have ran : interpreter.run source = .ok (interpreter.runAnalyzed ⟨stmts, []⟩) := by
      rw [Interpreter.run, analyzed]
      rfl
    obtain ⟨globals, shown⟩ := runAnalyzed_of_executeProgram interpreter stmts
    have declared := @Eval.executeProgram_declares interpreter.limits
      (executionRoom interpreter.limits.maxCallDepth) freshGlobals.1 stmts _ housed
      (fun _ mem => mem) Eval.startMachine (Eval.startMachine_madeOf _)
    refine ⟨(interpreter.runAnalyzed ⟨stmts, []⟩).1, (interpreter.runAnalyzed ⟨stmts, []⟩).2, ran,
      ?_, ?_⟩
    · intro completed
      split at shown
      · rename_i machine ended
        rw [ended] at declared
        rw [globals, shown.2]
        exact globals_of_declaredIn declared
      · rw [shown.1] at completed
        cases completed
    · intro failed
      split at shown
      · rw [shown.1] at failed
        cases failed
      · rename_i stop machine ended
        rw [ended] at declared
        obtain ⟨before, failing, rest, m', parts, fails, kept⟩ := declared
        refine ⟨before, failing, rest, m', machine, parts, fails, shown.2, ?_⟩
        rw [globals, shown.2]
        exact globals_of_declaredIn kept

/-- The program `var a; def f() { var b = true; a = b; } f(); var a;`. -/
def declaredTwice : List Stmt :=
  [.varDecl "a" none 1,
    .funDecl "f" [] [.varDecl "b" (some (.literal (.bool true) 1)) 1,
      .expression (.assign "a" (.var "b" 1) 1) 1] 1,
    .expression (.call (.var "f" 1) [] 1) 1,
    .varDecl "a" none 1]

/-- A name that is declared twice stays in its place, and one that is declared inside a
function is no name of the outermost scope. -/
theorem declarations_add_names_twice :
    ∃ report after, (Interpreter.new ⟨255, 10⟩).run
        "var a; def f() { var b = true; a = b; } f(); var a;" = .ok (report, after) ∧
      report.ok = true ∧
      after.heap.frames[after.globals.id]? = some ⟨none, ["hash", "a", "f"]⟩ := by
  have parses : analyze 255 "var a; def f() { var b = true; a = b; } f(); var a;" =
      .ok ⟨declaredTwice, []⟩ := rfl
  obtain ⟨-, report, after, ran, names, -⟩ :=
    declarations_add_names (Interpreter.new ⟨255, 10⟩) parses
  have shown : run ⟨255, 10⟩ "var a; def f() { var b = true; a = b; } f(); var a;" =
      .ok ⟨true, [], [], true⟩ := by
    decide +kernel
  rw [run, ran] at shown
  have completed : report.ok = true := congrArg Report.ok (Except.ok.inj shown)
  refine ⟨report, after, ran, completed, (names completed).trans ?_⟩
  decide +kernel

end TernLang
