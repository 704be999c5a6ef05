import Mathlib.Data.Prod.Lex
import TernLang.Interpreter
import TernLang.Proofs.Eval.Bind

/-! # The tasks of a run

A run is made of tasks: an expression to be evaluated, a statement to be executed, a
value to be called, and the lists and loops of them. While a task is carried out it
starts other tasks, one after the other. `Starts` says which, and on which machine:
the machine that the tasks in front of it have left. `Reaches` follows it from the
whole program, so that it gives **every state in which a run evaluates an
expression, executes a statement or calls a value**, with the number of calls whose
bodies are being executed at that time.

Every task leaves less room or less of a list or loop than the one that started it
(`Starts.decreases`), which is what inductions over the tasks of a run go by.
-/

namespace TernLang

/-! ## Operands -/

/-- The operand that is evaluated first. -/
def Expr.first? : Expr → Option Expr
  | .literal _ _ | .var _ _ | .increment _ _ _ | .list _ _ => none
  | .assign _ value _ => some value
  | .logical left _ _ _ => some left
  | .binary left _ _ _ => some left
  | .unary _ right _ => some right
  | .call callee _ _ => some callee
  | .member target _ _ => some target
  | .grouping inner _ => some inner
  | .index target _ _ => some target
  | .slice target _ _ _ => some target

/-- The operand that is evaluated next, if the first one has a given value. -/
def Expr.second? (value : Value) : Expr → Option Expr
  | .logical _ .or right _ => if value.truthy then none else some right
  | .logical _ .and right _ => if value.truthy then some right else none
  | .binary _ _ right _ => some right
  | .index _ position _ => some position
  | .slice _ first _ _ => first
  | _ => none

/-- The expression that a statement starts with; that of a loop belongs to its
passes. -/
def Stmt.operand? : Stmt → Option Expr
  | .expression expr _ => some expr
  | .print expr _ => some expr
  | .varDecl _ initial _ => initial
  | .ifElse condition _ _ _ => some condition
  | .returnValue value _ => value
  | .block _ _ | .whileLoop _ _ _ | .funDecl _ _ _ _ => none

namespace Eval

/-! ## Tasks -/

/-- What the evaluator can be asked to do, with the room it has. -/
inductive Task where
  | expr (room : Nat) (scope : ScopeRef) (expr : Expr)
  | exprs (room : Nat) (scope : ScopeRef) (exprs : List Expr)
  | call (room : Nat) (callee : Value) (arguments : List Value)
  | stmt (room : Nat) (scope : ScopeRef) (stmt : Stmt)
  | stmts (room : Nat) (scope : ScopeRef) (stmts : List Stmt)
  | loop (room : Nat) (scope : ScopeRef) (condition : Expr) (body : Stmt) (passes : Nat)
  | program (room : Nat) (globals : ScopeRef) (stmts : List Stmt)

/-- A computation whose result does not matter. -/
def forget {α : Type} (action : Eval α) : Eval Unit := fun machine =>
  match action machine with
  | .ok _ after => .ok () after
  | .error stop after => .error stop after

def Task.run (limits : Limits) : Task → Eval Unit
  | .expr room scope one => forget (evaluate limits room scope one)
  | .exprs room scope all => forget (each (evaluate limits room scope) all)
  | .call room callee arguments => forget (apply limits room callee arguments)
  | .stmt room scope one => forget (execute limits room scope one)
  | .stmts room scope all => forget (sequence (execute limits room scope) all)
  | .loop room scope condition body passes =>
      forget (Eval.loop (evaluate limits room scope condition) (execute limits room scope body)
        passes)
  | .program room globals all => executeProgram limits room globals all

/-- A call on the machine `m` runs the body of the function in `scope`, on the machine
`n`: what the call gives depends on what the body does there. -/
def RunsBody (limits : Limits) (closure : Closure) (arguments : List Value) (m : Machine)
    (scope : ScopeRef) (n : Machine) : Prop :=
  ∃ body body' : ScopeRef → Eval Completion,
    (∀ s o, ¬ (s = scope ∧ o = n) → body s o = body' s o) ∧
      callFunction limits closure arguments body m ≠ callFunction limits closure arguments body' m

/-- `Starts limits task m calls task' m'`: carrying out `task` on `m` starts `task'` on
`m'`. If `task'` is the body of a function, one more call is in progress. -/
inductive Starts (limits : Limits) : Task → Machine → Nat → Task → Machine → Prop
  | first {room s e a m} : e.first? = some a →
      Starts limits (.expr (room + 2) s e) m 0 (.expr room s a) m
  | second {room s e a b v m n} : e.first? = some a →
      evaluate limits room s a m = .ok v n → e.second? v = some b →
      Starts limits (.expr (room + 2) s e) m 0 (.expr room s b) n
  | lastBound {room s target low last line list value m n o} :
      evaluate limits room s target m = .ok list n →
      optional (evaluate limits room s) low n = .ok value o →
      Starts limits (.expr (room + 2) s (.slice target low (some last) line)) m 0
        (.expr room s last) o
  | elements {room s elements line m} :
      Starts limits (.expr (room + 3) s (.list elements line)) m 0 (.exprs room s elements) m
  | arguments {room s callee arguments line f m n} :
      evaluate limits (room + 1) s callee m = .ok f n →
      Starts limits (.expr (room + 3) s (.call callee arguments line)) m 0
        (.exprs room s arguments) n
  | call {room s callee arguments line f values m n o} :
      evaluate limits room s callee m = .ok f n →
      evaluateAll limits room s arguments n = .ok values o →
      Starts limits (.expr (room + 2) s (.call callee arguments line)) m 0
        (.call room f values) o
  | body {room ref values closure scope m n} : m.heap.functions[ref.id]? = some closure →
      RunsBody limits closure values m scope n →
      Starts limits (.call (room + 3) (.function ref) values) m 1
        (.stmts room scope closure.body) n
  | head {room s e rest m} :
      Starts limits (.exprs room s (e :: rest)) m 0 (.expr room s e) m
  | tail {room s e rest v m n} : evaluate limits room s e m = .ok v n →
      Starts limits (.exprs room s (e :: rest)) m 0 (.exprs room s rest) n
  | operand {room s stmt e m} : stmt.operand? = some e →
      Starts limits (.stmt (room + 2) s stmt) m 0 (.expr room s e) m
  | block {room s body line inner m n} : newScope [] s m = .ok inner n →
      Starts limits (.stmt (room + 3) s (.block body line)) m 0 (.stmts room inner body) n
  | branch {room s condition thenBranch elseBranch line v branch m n} :
      evaluate limits room s condition m = .ok v n →
      (if v.truthy then some thenBranch else elseBranch) = some branch →
      Starts limits (.stmt (room + 2) s (.ifElse condition thenBranch elseBranch line)) m 0
        (.stmt room s branch) n
  | loop {room s condition body line m} :
      Starts limits (.stmt (room + 2) s (.whileLoop condition body line)) m 0
        (.loop room s condition body limits.passes) m
  | condition {room s condition body passes m} :
      Starts limits (.loop room s condition body (passes + 1)) m 0 (.expr room s condition) m
  | pass {room s condition body passes v m n} : evaluate limits room s condition m = .ok v n →
      v.truthy = true →
      Starts limits (.loop room s condition body (passes + 1)) m 0 (.stmt room s body) n
  | again {room s condition body passes v m n o} :
      evaluate limits room s condition m = .ok v n → v.truthy = true →
      execute limits room s body n = .ok .normal o →
      Starts limits (.loop room s condition body (passes + 1)) m 0
        (.loop room s condition body passes) o
  | statement {room s stmt rest m} :
      Starts limits (.stmts room s (stmt :: rest)) m 0 (.stmt room s stmt) m
  | statements {room s stmt rest m n} : execute limits room s stmt m = .ok .normal n →
      Starts limits (.stmts room s (stmt :: rest)) m 0 (.stmts room s rest) n
  | topLevel {room s stmt rest m} :
      Starts limits (.program room s (stmt :: rest)) m 0 (.stmt room s stmt) m
  | program {room s stmt rest m n} : execute limits room s stmt m = .ok .normal n →
      Starts limits (.program room s (stmt :: rest)) m 0 (.program room s rest) n

/-- `ReachesFrom limits task m calls task' m'`: carrying out `task` on `m` comes to
carry out `task'` on `m'`, inside so many calls. -/
inductive ReachesFrom (limits : Limits) (task : Task) (m : Machine) :
    Nat → Task → Machine → Prop
  | start : ReachesFrom limits task m 0 task m
  | step {calls more task' m' task'' m''} : ReachesFrom limits task m calls task' m' →
      Starts limits task' m' more task'' m'' →
      ReachesFrom limits task m (calls + more) task'' m''

/-- The machine that every program starts on. -/
def startMachine : Machine :=
  ⟨freshGlobals.2, #[], 0⟩

/-- The run of a program comes to carry out the task on the machine, while the bodies
of so many calls are being executed. -/
def Reaches (limits : Limits) (stmts : List Stmt) : Nat → Task → Machine → Prop :=
  ReachesFrom limits (.program (executionRoom limits.maxCallDepth) freshGlobals.1 stmts)
    startMachine

variable {limits : Limits}

/-- What a reached task reaches is reached, and the calls entered on the way add up. -/
theorem ReachesFrom.trans {task task' task'' : Task} {m m' m'' : Machine} {calls more : Nat}
    (first : ReachesFrom limits task m calls task' m')
    (second : ReachesFrom limits task' m' more task'' m'') :
    ReachesFrom limits task m (calls + more) task'' m'' := by
  induction second with
  | start => exact first
  | step _ starts ih =>
      rw [← Nat.add_assoc]
      exact ih.step starts

/-- A task started directly is reached. -/
theorem Starts.reaches {task task' : Task} {m m' : Machine} {calls : Nat}
    (starts : Starts limits task m calls task' m') :
    ReachesFrom limits task m calls task' m' := by
  simpa using ReachesFrom.start.step starts

/-! ## The body of a call -/

/-- The scope that a call binds its parameters in, and the machine that its body runs
on. -/
def bodyStart (closure : Closure) (values : List Value) (m : Machine) : ScopeRef × Machine :=
  let (scope, heap) := m.heap.newScope
    ⟨Bindings.putAll [] (closure.params.zip values), some closure.scope⟩
  (scope, { heap := heap, output := m.output, callDepth := m.callDepth + 1 })

/-- What a call makes of the end of its body. -/
def leaveCall (name : String) :
    EStateM.Result Stop Machine Completion → EStateM.Result Stop Machine Value
  | .ok completion after => .ok completion.value { after with callDepth := after.callDepth - 1 }
  | .error stop after => .error (stop.inCall name) { after with callDepth := after.callDepth - 1 }

/-- A call that has the right number of arguments and is not refused runs its body. -/
theorem callFunction_run {closure : Closure} {values : List Value} {m : Machine}
    (arity : values.length = closure.params.length)
    (allowed : ¬ limits.maxCallDepth ≤ (m.callDepth : Int))
    (body : ScopeRef → Eval Completion) :
    callFunction limits closure values body m =
      leaveCall closure.name
        (body (bodyStart closure values m).1 (bodyStart closure values m).2) := by
  unfold callFunction
  rw [if_neg (not_not.mpr arity)]
  show (if limits.maxCallDepth ≤ (m.callDepth : Int) then _ else _ : Eval Value) m = _
  rw [if_neg allowed]
  show insideCall closure.name (body (bodyStart closure values m).1) _ = _
  unfold insideCall leaveCall
  rfl

/-- A call with the wrong number of arguments fails before the limit is looked at. -/
theorem callFunction_wrongArity {closure : Closure} {values : List Value}
    (arity : values.length ≠ closure.params.length) (body : ScopeRef → Eval Completion) :
    callFunction limits closure values body =
      fault (.wrongArity closure.name closure.params.length values.length) := by
  unfold callFunction
  rw [if_pos arity]

/-- A call with the right number of arguments at the limit is refused, and the machine is as
it was. -/
theorem callFunction_refused {closure : Closure} {values : List Value} {m : Machine}
    (arity : values.length = closure.params.length)
    (refused : limits.maxCallDepth ≤ (m.callDepth : Int)) (body : ScopeRef → Eval Completion) :
    callFunction limits closure values body m =
      fault (.callsTooDeep limits.maxCallDepth closure.name) m := by
  unfold callFunction
  rw [if_neg (not_not.mpr arity)]
  show (if limits.maxCallDepth ≤ (m.callDepth : Int) then _ else _ : Eval Value) m = _
  rw [if_pos refused]

/-- A body runs only in a call with the right number of arguments and below the limit,
and then it runs in a new scope with one more call in progress. -/
theorem runsBody_iff {closure : Closure} {values : List Value} {m n : Machine}
    {scope : ScopeRef} :
    RunsBody limits closure values m scope n ↔
      values.length = closure.params.length ∧ (m.callDepth : Int) < limits.maxCallDepth ∧
        (scope, n) = bodyStart closure values m := by
  constructor
  · rintro ⟨body, body', same, differ⟩
    have arity : values.length = closure.params.length := by
      by_contra wrong
      exact differ (by rw [callFunction_wrongArity wrong, callFunction_wrongArity wrong])
    have allowed : ¬ limits.maxCallDepth ≤ (m.callDepth : Int) := by
      intro refused
      exact differ (by rw [callFunction_refused arity refused, callFunction_refused arity refused])
    refine ⟨arity, not_le.mp allowed, ?_⟩
    by_contra elsewhere
    refine differ ?_
    rw [callFunction_run arity allowed, callFunction_run arity allowed]
    refine congrArg (leaveCall closure.name) (same _ _ ?_)
    rintro ⟨here, there⟩
    exact elsewhere (Prod.ext here.symm there.symm)
  · rintro ⟨arity, below, here⟩
    classical
    -- one body ends well everywhere, the other one stops on this machine
    let ends : ScopeRef → Eval Completion := fun _ o => .ok .normal o
    let stops : ScopeRef → Eval Completion := fun s o =>
      if s = scope ∧ o = n then .error .outOfPasses o else .ok .normal o
    refine ⟨ends, stops, ?_, ?_⟩
    · intro s o elsewhere
      exact (if_neg elsewhere).symm
    · have allowed := not_le.mpr below
      rw [callFunction_run arity allowed, callFunction_run arity allowed, ← here]
      have stopped : stops scope n = .error .outOfPasses n := if_pos ⟨rfl, rfl⟩
      rw [stopped]
      exact nofun

/-! ## Tasks get smaller -/

namespace Task

def room : Task → Nat
  | expr room _ _ => room
  | exprs room _ _ => room
  | call room _ _ => room
  | stmt room _ _ => room
  | stmts room _ _ => room
  | loop room _ _ _ _ => room
  | program room _ _ => room

/-- How much of a list or of the passes of a loop is left. -/
def remaining : Task → Nat
  | expr _ _ _ => 0
  | exprs _ _ all => all.length + 1
  | call _ _ _ => 0
  | stmt _ _ _ => 0
  | stmts _ _ all => all.length + 1
  | loop _ _ _ _ passes => passes + 1
  | program _ _ all => all.length + 1

end Task

/-- A task starts only tasks with less room, or with the same room and less left to
do. -/
theorem Starts.decreases {task task' : Task} {m m' : Machine} {calls : Nat}
    (starts : Starts limits task m calls task' m') :
    Prod.Lex (· < ·) (· < ·) (task'.room, task'.remaining) (task.room, task.remaining) := by
  rw [Prod.lex_def]
  cases starts <;> simp [Task.room, Task.remaining]

end Eval

end TernLang
