import TernLang.Proofs.Confinement
import TernLang.Proofs.Diagnostics
import TernLang.Proofs.Eval.Refusal

/-! # Counting calls

The machine counts the calls in progress. **In every state that a run comes to, the
count is the number of calls whose bodies are being executed, and it stays within
the limit** (`callDepth_counts`): a call adds one before its body runs and takes it
off however the body ends, and everything else leaves the count alone. A call that
would exceed the limit is refused before anything else happens, and this is the only
way in which a program comes to report it.

A limit below zero is one that allows no call: the count is zero then, which is
above the limit (`callDepth_above_negativeLimit`).
-/

namespace TernLang

namespace Eval

variable {limits : Limits}

/-! ## What a task leaves -/

/-- A run is never confined to less than everything. -/
def everywhere (h : Heap) : Invariant :=
  confinement h fun _ => True

theorem everywhere_heaps (h : Heap) : (everywhere h).Heaps h :=
  ⟨fun _ _ _ _ _ _ => trivial, fun _ _ => trivial, fun _ outside => (outside trivial).elim⟩

/-- What a run leaves has the depth of what it started on. -/
theorem callDepth_of_corresponds {α : Type} {action : Eval α} {m : Machine}
    {post : Unit → α → α → Prop}
    (corresponds : Corresponds (everywhere m.heap).correspondence () post action action) :
    (machineAfter (action m)).callDepth = m.callDepth := by
  have ends := corresponds m m ⟨rfl, everywhere_heaps m.heap⟩ rfl
  generalize action m = result at ends
  cases ends with
  | ok advances _ => exact advances.depth
  | error advances _ => exact advances.depth

theorem machineAfter_forget {α : Type} (action : Eval α) (m : Machine) :
    machineAfter (forget action m) = machineAfter (action m) := by
  unfold forget
  cases action m <;> rfl

/-- However a task ends, it leaves the depth that it started with. -/
theorem Task.callDepth_run (limits : Limits) (task : Task) (m : Machine) :
    (machineAfter (task.run limits m)).callDepth = m.callDepth := by
  have evaluates : ∀ room s e, Corresponds (everywhere m.heap).correspondence ()
      (everywhere m.heap).correspondence.Values (evaluate limits room s e)
      (evaluate limits room s e) := fun room s e =>
    evaluate_corresponds _ limits room (Node.placed_anywhere e.nodes) ⟨rfl, trivial⟩
  have executes : ∀ room s stmt, Corresponds (everywhere m.heap).correspondence ()
      (Completions (everywhere m.heap).correspondence) (execute limits room s stmt)
      (execute limits room s stmt) := fun room s stmt =>
    execute_corresponds _ limits room (Node.placed_anywhere stmt.nodes) ⟨rfl, trivial⟩
  cases task with
  | expr room s e =>
      rw [Task.run, machineAfter_forget]
      exact callDepth_of_corresponds (evaluates room s e)
  | exprs room s all =>
      rw [Task.run, machineAfter_forget]
      exact callDepth_of_corresponds (each_corresponds fun _ e _ => evaluates room s e)
  | call room callee values =>
      rw [Task.run, machineAfter_forget]
      have called : (everywhere m.heap).correspondence.Values () callee callee :=
        ⟨rfl, fun _ _ => trivial⟩
      have given : List.Forall₂ ((everywhere m.heap).correspondence.Values ()) values values :=
        forall₂_image_iff.mpr ⟨(List.map_id values).symm, fun _ _ _ _ => trivial⟩
      exact callDepth_of_corresponds (apply_corresponds _ limits room called given)
  | stmt room s stmt =>
      rw [Task.run, machineAfter_forget]
      exact callDepth_of_corresponds (executes room s stmt)
  | stmts room s all =>
      rw [Task.run, machineAfter_forget]
      exact callDepth_of_corresponds (sequence_corresponds fun _ stmt _ => executes room s stmt)
  | loop room s condition body passes =>
      rw [Task.run, machineAfter_forget]
      exact callDepth_of_corresponds (loop_corresponds (fun _ => evaluates room s condition)
        (fun _ => executes room s body) passes)
  | program room s all =>
      exact callDepth_of_corresponds (executeProgram_corresponds _ limits room
        (Node.placed_anywhere (Stmt.nodesAll all)) ⟨rfl, trivial⟩)

/-- Whatever an expression does, the number of open calls is as before. -/
theorem callDepth_evaluate (limits : Limits) (room : Nat) (s : ScopeRef) (e : Expr) (m : Machine) :
    (machineAfter (evaluate limits room s e m)).callDepth = m.callDepth := by
  rw [← machineAfter_forget]
  exact Task.callDepth_run limits (.expr room s e) m

/-- The same holds of a statement. -/
theorem callDepth_execute (limits : Limits) (room : Nat) (s : ScopeRef) (stmt : Stmt)
    (m : Machine) :
    (machineAfter (execute limits room s stmt m)).callDepth = m.callDepth := by
  rw [← machineAfter_forget]
  exact Task.callDepth_run limits (.stmt room s stmt) m

theorem callDepth_evaluateAll (limits : Limits) (room : Nat) (s : ScopeRef) (all : List Expr)
    (m : Machine) :
    (machineAfter (evaluateAll limits room s all m)).callDepth = m.callDepth := by
  cases room with
  | zero => rfl
  | succ room =>
      rw [← machineAfter_forget]
      exact Task.callDepth_run limits (.exprs room s all) m

theorem callDepth_optional (limits : Limits) (room : Nat) (s : ScopeRef) (part : Option Expr)
    (m : Machine) :
    (machineAfter (optional (evaluate limits room s) part m)).callDepth = m.callDepth := by
  cases part with
  | none => rfl
  | some e =>
      have kept := callDepth_evaluate limits room s e m
      show (machineAfter ((evaluate limits room s e >>= fun v => pure (some v)) m)).callDepth = _
      rw [bind_run]
      cases ran : evaluate limits room s e m <;> rwa [ran] at kept

/-! ## What a task starts -/

/-- The machine that a computation leaves if it gives a result. -/
theorem callDepth_of_ok {α : Type} {action : Eval α} {m n : Machine} {a : α}
    (kept : (machineAfter (action m)).callDepth = m.callDepth) (ran : action m = .ok a n) :
    n.callDepth = m.callDepth := by
  rwa [ran] at kept

/-- A task is started with the depth of the task that starts it, and the body of a
function with one more, if the limit allows it. -/
theorem Starts.callDepth {task task' : Task} {m m' : Machine} {calls : Nat}
    (starts : Starts limits task m calls task' m') :
    m'.callDepth = m.callDepth + calls ∧
      (calls = 0 ∨ (m'.callDepth : Int) ≤ limits.maxCallDepth) := by
  cases starts with
  | body found runs =>
      obtain ⟨-, below, here⟩ := runsBody_iff.mp runs
      cases here
      refine ⟨rfl, .inr ?_⟩
      push_cast
      omega
  | second _ ran _ | arguments ran | tail ran | branch ran _ | pass ran _ =>
      exact ⟨callDepth_of_ok (callDepth_evaluate _ _ _ _ _) ran, .inl rfl⟩
  | statements ran | program ran =>
      exact ⟨callDepth_of_ok (callDepth_execute _ _ _ _ _) ran, .inl rfl⟩
  | again ran _ ran' =>
      have tested := callDepth_of_ok (callDepth_evaluate _ _ _ _ _) ran
      exact ⟨(callDepth_of_ok (callDepth_execute _ _ _ _ _) ran').trans tested, .inl rfl⟩
  | lastBound ran ran' =>
      have target := callDepth_of_ok (callDepth_evaluate _ _ _ _ _) ran
      exact ⟨(callDepth_of_ok (callDepth_optional _ _ _ _ _) ran').trans target, .inl rfl⟩
  | call ran ran' =>
      have callee := callDepth_of_ok (callDepth_evaluate _ _ _ _ _) ran
      exact ⟨(callDepth_of_ok (callDepth_evaluateAll _ _ _ _ _) ran').trans callee, .inl rfl⟩
  | block ran =>
      cases ran
      exact ⟨rfl, .inl rfl⟩
  | first | elements | head | operand | loop | condition | statement | topLevel =>
      exact ⟨rfl, .inl rfl⟩

/-- **The count is right in every state that a run comes to**, and it is zero or within
the limit. -/
theorem Reaches.callDepth {stmts : List Stmt} {calls : Nat} {task : Task} {m : Machine}
    (reached : Reaches limits stmts calls task m) :
    m.callDepth = calls ∧ (calls = 0 ∨ (calls : Int) ≤ limits.maxCallDepth) := by
  induction reached with
  | start => exact ⟨rfl, .inl rfl⟩
  | @step calls more task' m' task'' m'' _ starts ih =>
      obtain ⟨counted, bounded⟩ := ih
      obtain ⟨added, allowed⟩ := starts.callDepth
      refine ⟨by rw [added, counted], ?_⟩
      rcases allowed with rfl | allowed
      · exact bounded
      · rw [added, counted] at allowed
        exact .inr allowed

/-- The limit is reached exactly if as many calls are in progress as it allows; below
zero it allows none. -/
theorem Reaches.limit_iff {stmts : List Stmt} {calls : Nat} {task : Task} {m : Machine}
    (reached : Reaches limits stmts calls task m) :
    limits.maxCallDepth ≤ (m.callDepth : Int) ↔
      (m.callDepth : Int) = max 0 limits.maxCallDepth := by
  obtain ⟨counted, bounded⟩ := reached.callDepth
  omega

/-! ## Refused calls -/

/-- A call is refused where the result says so, and nothing was done in it. -/
theorem refuses_iff {α : Type} {limit : Int} {name : String} {left : Machine}
    {result : EStateM.Result Stop Machine α} :
    Refuses limit name left result ↔
      ∃ line after, result = .error (.fault (.callsTooDeep limit name) line) after ∧
        after.heap = left.heap ∧ after.output = left.output := by
  cases result with
  | ok a after => simp [Refuses]
  | error stop after =>
      constructor
      · rintro ⟨⟨line, rfl⟩, kept⟩
        exact ⟨line, after, rfl, kept⟩
      · rintro ⟨line, _, same, kept⟩
        cases same
        exact ⟨⟨line, rfl⟩, kept⟩

theorem sequence_hasLine {room : Nat} {s : ScopeRef} {stmts : List Stmt} {m after : Machine}
    {stop : Stop} (stopped : sequence (execute limits room s) stmts m = .error stop after) :
    stop = .tooDeep ∨ stop.HasLine := by
  induction stmts generalizing m with
  | nil => cases stopped
  | cons stmt rest ih =>
      unfold sequence at stopped
      rw [bind_run] at stopped
      cases first : execute limits room s stmt m with
      | ok completion next =>
          rw [first] at stopped
          cases completion with
          | normal => exact ih stopped
          | returned value line => cases stopped
      | error inner next =>
          rw [first] at stopped
          cases stopped
          exact execute_hasLine first

/-- A call reports a refusal of its own exactly if it has the right number of arguments
and the limit is reached; then the machine is as it was. What comes from its body
has a line already. -/
theorem apply_refuses_iff {room : Nat} {ref : FunctionRef} {values : List Value} {m after : Machine}
    {c : Closure} (found : m.heap.functions[ref.id]? = some c) {limit : Int} {name : String} :
    apply limits (room + 3) (.function ref) values m =
        .error (.fault (.callsTooDeep limit name) none) after ↔
      values.length = c.params.length ∧ limits.maxCallDepth ≤ (m.callDepth : Int) ∧
        limit = limits.maxCallDepth ∧ name = c.name ∧ after = m := by
  have read : closure ref m = .ok c m := by simp [closure, found]
  have called : apply limits (room + 3) (.function ref) values m =
      callFunction limits c values (fun scope => sequence (execute limits room scope) c.body) m := by
    rw [apply, bind_run_ok read]
  rw [called]
  by_cases arity : values.length = c.params.length
  · by_cases refused : limits.maxCallDepth ≤ (m.callDepth : Int)
    · rw [callFunction_refused arity refused]
      unfold fault Stop.ofFault
      simp only [EStateM.Result.error.injEq, Stop.fault.injEq, Fault.callsTooDeep.injEq, and_true,
        arity, refused, true_and]
      constructor
      · rintro ⟨⟨rfl, rfl⟩, rfl⟩
        exact ⟨rfl, rfl, rfl⟩
      · rintro ⟨rfl, rfl, rfl⟩
        exact ⟨⟨rfl, rfl⟩, rfl⟩
    · rw [callFunction_run arity refused]
      -- the body runs; a fault that stops it has a line, which the refusal of this call has not
      refine iff_of_false ?_ fun counted => refused counted.2.1
      intro stopped
      cases ran : sequence (execute limits room (bodyStart c values m).1) c.body
          (bodyStart c values m).2 with
      | ok completion n =>
          rw [ran] at stopped
          cases stopped
      | error stop n =>
          rw [ran] at stopped
          rcases sequence_hasLine ran with rfl | lined
          · cases stopped
          · cases stop with
            | fault cause line =>
                obtain ⟨line, rfl⟩ := Option.isSome_iff_exists.mp lined
                cases stopped
            | tooDeep => cases stopped
            | outOfPasses => cases stopped
  · rw [callFunction_wrongArity arity]
    refine iff_of_false ?_ fun counted => arity counted.1
    intro stopped
    cases stopped

end Eval

/-- **Calls are counted**. Throughout a run, the depth of the machine is the number of
calls whose bodies are being executed, and at most the limit, where a limit below
zero counts as zero. Evaluating an expression and executing a statement leave the
depth as it was on any machine, however they end. A call of a function reports that
the limit is exceeded exactly if it has the right number of arguments while the depth
has reached the limit, and then nothing on the machine has changed; and a program
stops with that report exactly if it comes to such a call. -/
theorem callDepth_counts (limits : Limits) (stmts : List Stmt) :
    (∀ calls task m, Eval.Reaches limits stmts calls task m →
      m.callDepth = calls ∧ (Eval.machineAfter (task.run limits m)).callDepth = calls ∧
        (m.callDepth : Int) ≤ max 0 limits.maxCallDepth) ∧
    (∀ room s m,
      (∀ e, (Eval.machineAfter (Eval.evaluate limits room s e m)).callDepth = m.callDepth) ∧
      (∀ stmt, (Eval.machineAfter (Eval.execute limits room s stmt m)).callDepth = m.callDepth)) ∧
    (∀ calls room ref values m c,
      Eval.Reaches limits stmts calls (.call (room + 3) (.function ref) values) m →
      m.heap.functions[ref.id]? = some c → ∀ limit name after,
        (Eval.apply limits (room + 3) (.function ref) values m =
            .error (.fault (.callsTooDeep limit name) none) after ↔
          values.length = c.params.length ∧ (m.callDepth : Int) = max 0 limits.maxCallDepth ∧
            limit = limits.maxCallDepth ∧ name = c.name ∧ after = m)) ∧
    (∀ limit name heap output,
      (∃ line after, Eval.executeProgram limits (executionRoom limits.maxCallDepth)
          freshGlobals.1 stmts Eval.startMachine =
            .error (.fault (.callsTooDeep limit name) line) after ∧
          after.heap = heap ∧ after.output = output) ↔
        ∃ calls room ref values m c,
          Eval.Reaches limits stmts calls (.call (room + 3) (.function ref) values) m ∧
          m.heap.functions[ref.id]? = some c ∧ values.length = c.params.length ∧
          (m.callDepth : Int) = max 0 limits.maxCallDepth ∧ limit = limits.maxCallDepth ∧
          name = c.name ∧ m.heap = heap ∧ m.output = output) ∧
    (∀ limit name, (Fault.callsTooDeep limit name).message =
      s!"Maximum call depth of {limit} exceeded in {name}()") := by
  refine ⟨?_, ?_, ?_, ?_, fun _ _ => rfl⟩
  · intro calls task m reached
    obtain ⟨counted, bounded⟩ := reached.callDepth
    refine ⟨counted, (task.callDepth_run limits m).trans counted, ?_⟩
    omega
  · intro room s m
    exact ⟨fun e => Eval.callDepth_evaluate limits room s e m,
      fun stmt => Eval.callDepth_execute limits room s stmt m⟩
  · intro calls room ref values m c reached found limit name after
    rw [Eval.apply_refuses_iff found, reached.limit_iff]
  · intro limit name heap output
    -- the program is refused by a call that it reaches
    rw [← @Eval.refuses_iff _ limit name ⟨heap, output, 0⟩, ← Eval.Task.run,
      Eval.refuses_iff_reaches]
    constructor
    · rintro ⟨calls, _, m, reached, ⟨found, arity, refused⟩, kept⟩
      have come : Eval.Reaches limits stmts calls _ m := reached
      have full := come.limit_iff.mp refused
      exact ⟨calls, _, _, _, m, _, reached, found, arity, full, rfl, rfl, kept⟩
    · rintro ⟨calls, room, ref, values, m, c, reached, found, arity, full, rfl, rfl, kept⟩
      exact ⟨calls, _, m, reached, .mk found arity (reached.limit_iff.mpr full), kept⟩

/-- The program `def f() {} f();`. -/
def oneCall : List Stmt :=
  [.funDecl "f" [] [] 1, .expression (.call (.var "f" 1) [] 1) 1]

/-- Its machine when the function is declared. -/
def declaredMachine : Machine :=
  ⟨(freshGlobals.2.newFunction ⟨"f", [], [], freshGlobals.1⟩).2.define freshGlobals.1 "f"
    (.function ⟨0⟩), #[], 0⟩

/-- Under any limit whose budget is the least one, the program comes to the call of the
function. -/
theorem oneCall_reaches (maxCallDepth : Int) (least : executionRoom maxCallDepth = 994) :
    Eval.Reaches ⟨maxCallDepth, 10⟩ oneCall 0 (.call 990 (.function ⟨0⟩) []) declaredMachine := by
  have begun : Eval.ReachesFrom ⟨maxCallDepth, 10⟩ (.program 994 freshGlobals.1 oneCall)
      Eval.startMachine 0 (.program 994 freshGlobals.1 oneCall) Eval.startMachine := .start
  have declared := begun.step (.program (n := declaredMachine) rfl)
  have called := (declared.step .topLevel).step (.operand rfl)
  unfold Eval.Reaches
  rw [least]
  exact called.step (.call (n := declaredMachine) rfl rfl)

/-- A limit of zero allows no call: the program stops at its only one. -/
theorem callDepth_counts_zeroLimit :
    Eval.Reaches ⟨0, 10⟩ oneCall 0 (.call 990 (.function ⟨0⟩) []) declaredMachine ∧
    declaredMachine.callDepth = 0 ∧
    ∃ line after, Eval.executeProgram ⟨0, 10⟩ (executionRoom 0) freshGlobals.1 oneCall
      Eval.startMachine = .error (.fault (.callsTooDeep 0 "f") line) after ∧
      after.heap = declaredMachine.heap ∧ after.output = #[] := by
  have reached := oneCall_reaches 0 rfl
  obtain ⟨counts, -, -, stops, -⟩ := callDepth_counts ⟨0, 10⟩ oneCall
  refine ⟨reached, (counts _ _ _ reached).1, (stops 0 "f" _ _).mpr ?_⟩
  exact ⟨0, 987, ⟨0⟩, [], declaredMachine, ⟨"f", [], [], freshGlobals.1⟩, reached, rfl, rfl, rfl,
    rfl, rfl, rfl, rfl⟩

/-- **Below zero the limit is no bound of the depth**: under a limit of -5 the program
comes to a call while the depth is 0, which is neither at most nor equal to the
limit, and still the call is refused. -/
theorem callDepth_above_negativeLimit :
    analyze (-5) "def f() {} f();" = .ok ⟨oneCall, []⟩ ∧
    Eval.Reaches ⟨-5, 10⟩ oneCall 0 (.call 990 (.function ⟨0⟩) []) declaredMachine ∧
    ¬ (declaredMachine.callDepth : Int) ≤ -5 ∧ (declaredMachine.callDepth : Int) ≠ -5 ∧
    run ⟨-5, 10⟩ "def f() {} f();" = .ok ⟨false, [],
      [⟨.runtime, some 1, "Maximum call depth of -5 exceeded in f()", "StackOverflow"⟩], true⟩ :=
  ⟨rfl, oneCall_reaches (-5) rfl, by decide, by decide, by decide +kernel⟩

end TernLang
