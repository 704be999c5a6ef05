import TernLang.Proofs.CallDepth
import TernLang.Proofs.Eval.Frames
import TernLang.Proofs.Heap.Chains

/-! # A run keeps the links of scopes

Whatever is computed, the scopes that are there keep the scopes around them, and new
scopes come behind (`KeepsLinks`). So **what a task leaves has all links that a task
started by it leaves** (`Starts.leaves`), and the links at the end of a run say where
each scope has stood in all of its states.
-/

namespace TernLang.Eval

variable {α β : Type} {limits : Limits} {links : List (Option ScopeRef)} {m n : Machine}

/-- The machine that is left has these links, and maybe more behind them. -/
def Leaves (links : List (Option ScopeRef)) (result : EStateM.Result Stop Machine α) : Prop :=
  links <+: (machineAfter result).heap.links

/-- However the computation ends, it leaves the links that were there. -/
def KeepsLinks (action : Eval α) : Prop :=
  ∀ m : Machine, Leaves m.heap.links (action m)

/-! ## Rules -/

theorem Leaves.bind {action : Eval α} {rest : α → Eval β} (first : Leaves links (action m))
    (second : ∀ a, KeepsLinks (rest a)) : Leaves links ((action >>= rest) m) := by
  rw [bind_run]
  cases ran : action m with
  | ok a n =>
      rw [ran] at first
      exact List.IsPrefix.trans first (second a n)
  | error stop n =>
      rw [ran] at first
      exact first

/-- Past an evaluation that has succeeded, only the rest matters. -/
theorem leaves_bind_ok {action : Eval α} {rest : α → Eval β} {a : α} (ran : action m = .ok a n)
    (second : Leaves links (rest a n)) : Leaves links ((action >>= rest) m) := by
  rwa [bind_run_ok ran]

@[simp] theorem leaves_mapStop {change : Stop → Stop} {action : Eval α} :
    Leaves links (mapStop change action m) ↔ Leaves links (action m) := by
  rw [Leaves, machineAfter_mapStop, Leaves]

@[simp] theorem leaves_forget {action : Eval α} :
    Leaves links (forget action m) ↔ Leaves links (action m) := by
  rw [Leaves, machineAfter_forget, Leaves]

/-- Leaving a call changes the depth counter and the ending, never a link. -/
@[simp] theorem leaves_leaveCall {name : String} {result : EStateM.Result Stop Machine Completion} :
    Leaves links (leaveCall name result) ↔ Leaves links result := by
  cases result <;> exact Iff.rfl

theorem KeepsLinks.bind {action : Eval α} {rest : α → Eval β} (first : KeepsLinks action)
    (second : ∀ a, KeepsLinks (rest a)) : KeepsLinks (action >>= rest) :=
  fun m => (first m).bind second

/-- An evaluation after which every link is what it was keeps the links. -/
theorem keepsLinks_of_same {action : Eval α}
    (same : ∀ m, (machineAfter (action m)).heap.links = m.heap.links) : KeepsLinks action := by
  intro m
  rw [Leaves, same]

theorem keepsLinks_pure (a : α) : KeepsLinks (pure a) :=
  keepsLinks_of_same fun _ => rfl

theorem keepsLinks_inspect (read : Heap → Except Fault α) : KeepsLinks (inspect read) := by
  refine keepsLinks_of_same fun m => ?_
  unfold inspect
  cases read m.heap <;> rfl

theorem keepsLinks_query (read : Heap → Except Stop α) : KeepsLinks (query read) := by
  refine keepsLinks_of_same fun m => ?_
  unfold query
  cases read m.heap <;> rfl

theorem keepsLinks_settle (outcome : Outcome) : KeepsLinks (settle outcome) := by
  cases outcome with
  | value value => exact keepsLinks_pure value
  | number x =>
      refine keepsLinks_of_same fun m => ?_
      show (m.heap.newNumber x).2.links = _
      unfold Heap.newNumber
      split <;> rfl

theorem keepsLinks_assign (s : ScopeRef) (name : String) (value : Value) :
    KeepsLinks (assign s name value) := by
  refine (keepsLinks_inspect _).bind fun owner => ?_
  exact keepsLinks_of_same fun m => m.heap.links_define owner name value

theorem keepsLinks_newList (items : Array Value) : KeepsLinks (newList items) :=
  keepsLinks_of_same fun _ => rfl

theorem keepsLinks_print (room : Nat) (value : Value) : KeepsLinks (print room value) := by
  refine keepsLinks_of_same fun m => ?_
  unfold print
  cases m.heap.render room value <;> rfl

/-! ## Whole runs -/

/-- The links that a run has started on stay in front. -/
def linking (links : List (Option ScopeRef)) : Invariant where
  Heaps h := links <+: h.links
  Values _ := True
  Scopes _ := True
  Places _ := True
  constant _ := trivial
  receiver _ := trivial
  lookup _ _ _ := trivial
  owner _ _ _ := trivial
  define {h s} name {v} front _ _ := (h.links_define s name v).symm ▸ front
  items _ _ _ _ := trivial
  modifyItems front _ _ := front
  closure {_ _ c} _ _ _ := ⟨trivial, Node.placed_anywhere (Stmt.nodesAll c.body)⟩
  newScope {h s bindings} front _ _ := by
    rw [Heap.links_newScope]
    exact ⟨front.trans (List.prefix_append _ _), trivial⟩
  newList front _ := ⟨front, trivial⟩
  newFunction front _ _ := ⟨front, trivial⟩
  newNumber {h} x front := by
    unfold Heap.newNumber
    split <;> exact ⟨front, trivial⟩
  newMethod _ _ front _ := ⟨front, trivial⟩

/-- The invariant of fixed links, read as a statement about the machine left behind. -/
theorem leaves_of_keeps {results : α → Prop} {result : EStateM.Result Stop Machine α}
    (keeps : (linking links).Keeps results result) : Leaves links result := by
  cases result with
  | ok a after => exact keeps.1
  | error stop after => exact keeps.1

/-- No expression changes the outer link of a scope that existed before it. -/
theorem keepsLinks_evaluate (limits : Limits) (room : Nat) (s : ScopeRef) (e : Expr) :
    KeepsLinks (evaluate limits room s e) := fun m =>
  leaves_of_keeps (Invariant.evaluate_keeps limits room (Node.placed_anywhere e.nodes) trivial
    (List.prefix_refl m.heap.links))

/-- No statement changes the outer link of a scope that existed before it. -/
theorem keepsLinks_execute (limits : Limits) (room : Nat) (s : ScopeRef) (stmt : Stmt) :
    KeepsLinks (execute limits room s stmt) := fun m =>
  leaves_of_keeps (Invariant.execute_keeps limits room (Node.placed_anywhere stmt.nodes) trivial
    (List.prefix_refl m.heap.links))

/-- No call changes the outer link of a scope that existed before it. -/
theorem keepsLinks_apply (limits : Limits) (room : Nat) (callee : Value) (values : List Value) :
    KeepsLinks (apply limits room callee values) := fun m =>
  leaves_of_keeps (Invariant.apply_keeps limits room trivial (fun _ _ => trivial)
    (List.prefix_refl m.heap.links))

/-- No program changes the outer link of a scope that existed before it. -/
theorem keepsLinks_executeProgram (limits : Limits) (room : Nat) (s : ScopeRef)
    (stmts : List Stmt) : KeepsLinks (executeProgram limits room s stmts) := fun m =>
  leaves_of_keeps (Invariant.executeProgram_keeps limits room
    (Node.placed_anywhere (Stmt.nodesAll stmts)) trivial (List.prefix_refl m.heap.links))

theorem keepsLinks_each (limits : Limits) (room : Nat) (s : ScopeRef) (all : List Expr) :
    KeepsLinks (each (evaluate limits room s) all) := by
  induction all with
  | nil => exact keepsLinks_pure []
  | cons e rest ih =>
      exact (keepsLinks_evaluate limits room s e).bind fun _ => ih.bind fun _ => keepsLinks_pure _

theorem keepsLinks_evaluateAll (limits : Limits) (room : Nat) (s : ScopeRef) (all : List Expr) :
    KeepsLinks (evaluateAll limits room s all) := by
  cases room with
  | zero => exact keepsLinks_of_same fun _ => rfl
  | succ room => exact keepsLinks_each limits room s all

theorem keepsLinks_optional (limits : Limits) (room : Nat) (s : ScopeRef) (part : Option Expr) :
    KeepsLinks (optional (evaluate limits room s) part) := by
  cases part with
  | none => exact keepsLinks_pure none
  | some e => exact (keepsLinks_evaluate limits room s e).bind fun _ => keepsLinks_pure _

theorem keepsLinks_sequence (limits : Limits) (room : Nat) (s : ScopeRef) (stmts : List Stmt) :
    KeepsLinks (sequence (execute limits room s) stmts) := by
  induction stmts with
  | nil => exact keepsLinks_pure _
  | cons stmt rest ih =>
      refine (keepsLinks_execute limits room s stmt).bind fun completion => ?_
      cases completion with
      | normal => exact ih
      | returned value line => exact keepsLinks_pure _

/-- A loop changes no outer link, however many passes it makes. -/
theorem keepsLinks_loop (limits : Limits) (room : Nat) (s : ScopeRef) (condition : Expr)
    (body : Stmt) (passes : Nat) :
    KeepsLinks (Eval.loop (evaluate limits room s condition) (execute limits room s body)
      passes) := by
  induction passes with
  | zero => exact keepsLinks_of_same fun _ => rfl
  | succ passes ih =>
      refine (keepsLinks_evaluate limits room s condition).bind fun value => ?_
      split
      · refine (keepsLinks_execute limits room s body).bind fun completion => ?_
        cases completion with
        | normal => exact ih
        | returned value line => exact keepsLinks_pure _
      · exact keepsLinks_pure _

/-! ## From a task to the one that has started it -/

/-- What a slice does after its first bound. -/
theorem keepsLinks_slice (limits : Limits) (room : Nat) (s : ScopeRef) (list : Value)
    (last : Option Expr) (low : Option Value) :
    KeepsLinks (do
      let high ← optional (evaluate limits room s) last
      newList (← inspect (·.slice list low high))) := by
  refine (keepsLinks_optional limits room s last).bind fun high => ?_
  exact (keepsLinks_inspect _).bind keepsLinks_newList

/-- What the first operand leaves alone, the whole expression leaves alone. -/
theorem leaves_of_first {room : Nat} {s : ScopeRef} {e a : Expr} (operand : e.first? = some a)
    (leaves : Leaves links (evaluate limits room s a m)) :
    Leaves links (evaluate limits (room + 2) s e m) := by
  have evaluates := keepsLinks_evaluate limits room s
  unfold evaluate
  rw [leaves_mapStop]
  -- behind the first operand only evaluations that keep the links are left
  cases e with
  | literal | var | increment | list => cases operand
  | grouping inner line =>
      cases operand
      exact leaves
  | assign name value line =>
      cases operand
      exact leaves.bind fun v => (keepsLinks_assign s name v).bind fun _ => keepsLinks_pure v
  | logical left op right line =>
      cases operand
      cases op with
      | or =>
          refine leaves.bind fun v => ?_
          split
          · exact keepsLinks_pure v
          · exact evaluates right
      | and =>
          refine leaves.bind fun v => ?_
          split
          · exact evaluates right
          · exact keepsLinks_pure v
  | binary left op right line =>
      cases operand
      refine leaves.bind fun v => (evaluates right).bind fun w => ?_
      exact (keepsLinks_query _).bind keepsLinks_settle
  | unary op right line =>
      cases operand
      cases op with
      | negate => exact leaves.bind fun v => (keepsLinks_inspect _).bind keepsLinks_settle
      | not => exact leaves.bind fun v => keepsLinks_pure _
  | call callee arguments line =>
      cases operand
      refine leaves.bind fun f => (keepsLinks_evaluateAll limits room s arguments).bind ?_
      exact fun values => keepsLinks_apply limits room f values
  | member target name line =>
      cases operand
      refine leaves.bind fun v => (keepsLinks_inspect _).bind fun found => ?_
      exact keepsLinks_of_same fun _ => rfl
  | index target position line =>
      cases operand
      exact leaves.bind fun v => (evaluates position).bind fun i => keepsLinks_inspect _
  | slice target first last line =>
      cases operand
      refine leaves.bind fun v => (keepsLinks_optional limits room s first).bind fun low => ?_
      exact keepsLinks_slice limits room s v last low

/-- What the second operand leaves alone after the first has been evaluated, the whole
expression leaves alone. -/
theorem leaves_of_second {room : Nat} {s : ScopeRef} {e a b : Expr} {v : Value}
    (operand : e.first? = some a) (ran : evaluate limits room s a m = .ok v n)
    (next : e.second? v = some b) (leaves : Leaves links (evaluate limits room s b n)) :
    Leaves links (evaluate limits (room + 2) s e m) := by
  unfold evaluate
  rw [leaves_mapStop]
  -- expressions with one operand are ruled out by `second?`
  cases e with
  | literal | var | increment | list => cases operand
  | grouping | unary | assign | call | member => cases next
  | logical left op right line =>
      cases operand
      cases op with
      | or =>
          refine leaves_bind_ok ran ?_
          by_cases truthy : v.truthy = true
          · simp [Expr.second?, truthy] at next
          · simp only [Expr.second?, if_neg truthy, Option.some.injEq] at next ⊢
            rwa [next]
      | and =>
          refine leaves_bind_ok ran ?_
          by_cases truthy : v.truthy = true
          · simp only [Expr.second?, if_pos truthy, Option.some.injEq] at next ⊢
            rwa [next]
          · simp [Expr.second?, truthy] at next
  | binary left op right line =>
      cases operand
      cases next
      refine leaves_bind_ok ran (leaves.bind fun w => ?_)
      exact (keepsLinks_query _).bind keepsLinks_settle
  | index target position line =>
      cases operand
      cases next
      exact leaves_bind_ok ran (leaves.bind fun i => keepsLinks_inspect _)
  | slice target first last line =>
      cases operand
      cases next
      refine leaves_bind_ok ran ((leaves.bind fun w => keepsLinks_pure (some w)).bind ?_)
      exact fun low => keepsLinks_slice limits room s v last low

/-- What the expression of a statement leaves alone, the statement leaves alone. -/
theorem leaves_of_operand {room : Nat} {s : ScopeRef} {stmt : Stmt} {e : Expr}
    (operand : stmt.operand? = some e) (leaves : Leaves links (evaluate limits room s e m)) :
    Leaves links (execute limits (room + 2) s stmt m) := by
  unfold execute
  rw [leaves_mapStop]
  cases stmt with
  | block | whileLoop | funDecl => cases operand
  | expression e line =>
      cases operand
      exact leaves.bind fun v => keepsLinks_pure _
  | print e line =>
      cases operand
      exact leaves.bind fun v => (keepsLinks_print room v).bind fun _ => keepsLinks_pure _
  | ifElse condition thenBranch elseBranch line =>
      cases operand
      refine leaves.bind fun v => ?_
      split
      · exact keepsLinks_execute limits room s thenBranch
      · cases elseBranch with
        | none => exact keepsLinks_pure _
        | some branch => exact keepsLinks_execute limits room s branch
  | varDecl name initial line =>
      cases operand
      refine (leaves.bind fun v => keepsLinks_pure (some v)).bind fun value => ?_
      refine KeepsLinks.bind (keepsLinks_of_same fun m => ?_) fun _ => keepsLinks_pure _
      exact m.heap.links_define s name _
  | returnValue value line =>
      cases operand
      exact (leaves.bind fun v => keepsLinks_pure (some v)).bind fun _ => keepsLinks_pure _

/-- What the body of a function leaves alone, a call of the function leaves alone. -/
theorem leaves_of_body {room : Nat} {ref : FunctionRef} {values : List Value} {c : Closure}
    {scope : ScopeRef} (found : m.heap.functions[ref.id]? = some c)
    (runs : RunsBody limits c values m scope n)
    (leaves : Leaves links (sequence (execute limits room scope) c.body n)) :
    Leaves links (apply limits (room + 3) (.function ref) values m) := by
  obtain ⟨arity, below, here⟩ := runsBody_iff.mp runs
  have read : closure ref m = .ok c m := by simp [closure, found]
  unfold apply
  refine leaves_bind_ok read ?_
  rw [callFunction_run arity (not_le.mpr below), ← here, leaves_leaveCall]
  exact leaves

/-- A computation that goes on only after a normal end. -/
theorem Leaves.completed {action rest : Eval Completion} (first : Leaves links (action m))
    (second : KeepsLinks rest) :
    Leaves links ((do
      match ← action with
      | .normal => rest
      | completion => pure completion) m) := by
  refine first.bind fun completion => ?_
  cases completion with
  | normal => exact second
  | returned value line => exact keepsLinks_pure _

/-- **What a task leaves has the links that a task started by it leaves.** -/
theorem Starts.leaves {task task' : Task} {m' : Machine} {calls : Nat}
    (starts : Starts limits task m calls task' m') (leaves : Leaves links (task'.run limits m')) :
    Leaves links (task.run limits m) := by
  -- whatever the task does behind the one it has started keeps the links
  cases starts <;> simp only [Task.run, leaves_forget] at leaves ⊢
  case first operand => exact leaves_of_first operand leaves
  case second operand next ran => exact leaves_of_second operand ran next leaves
  case lastBound ran ran' =>
      rw [evaluate, leaves_mapStop]
      refine leaves_bind_ok ran (leaves_bind_ok ran' ?_)
      refine (leaves.bind fun v => keepsLinks_pure (some v)).bind fun high => ?_
      exact (keepsLinks_inspect _).bind keepsLinks_newList
  case elements =>
      rw [evaluate, leaves_mapStop]
      exact leaves.bind fun values => keepsLinks_newList _
  case arguments f ran =>
      rw [evaluate, leaves_mapStop]
      exact leaves_bind_ok ran (leaves.bind fun values => keepsLinks_apply limits _ f values)
  case call ran ran' =>
      rw [evaluate, leaves_mapStop]
      exact leaves_bind_ok ran (leaves_bind_ok ran' leaves)
  case body found runs => exact leaves_of_body found runs leaves
  case head room s e rest =>
      refine leaves.bind fun v => (keepsLinks_each limits room s rest).bind fun vs => ?_
      exact keepsLinks_pure _
  case tail ran => exact leaves_bind_ok ran (leaves.bind fun vs => keepsLinks_pure _)
  case operand operand => exact leaves_of_operand operand leaves
  case block ran =>
      rw [execute, leaves_mapStop]
      exact leaves_bind_ok ran leaves
  case branch v branch taken ran =>
      unfold execute
      rw [leaves_mapStop]
      refine leaves_bind_ok ran ?_
      by_cases truthy : v.truthy = true
      · simp only [if_pos truthy, Option.some.injEq] at taken ⊢
        rwa [taken]
      · simp only [if_neg truthy] at taken ⊢
        rwa [taken]
  case loop =>
      rw [execute, leaves_mapStop]
      exact leaves
  case condition room s condition body passes =>
      refine leaves.bind fun v => ?_
      split
      · exact fun m => (keepsLinks_execute limits room s body m).completed
          (keepsLinks_loop limits room s condition body passes)
      · exact keepsLinks_pure _
  case pass room s condition body passes v truthy ran =>
      refine leaves_bind_ok ran ?_
      rw [if_pos truthy]
      exact leaves.completed (keepsLinks_loop limits room s condition body passes)
  case again truthy ran ran' =>
      refine leaves_bind_ok ran ?_
      rw [if_pos truthy]
      exact leaves_bind_ok ran' leaves
  case statement room s stmt rest =>
      exact leaves.completed (keepsLinks_sequence limits room s rest)
  case statements ran => exact leaves_bind_ok ran leaves
  case topLevel room s stmt rest =>
      unfold executeProgram
      refine Leaves.bind (leaves_mapStop.mpr leaves) fun completion => ?_
      cases completion with
      | normal => exact keepsLinks_executeProgram limits room s rest
      | returned value line => exact keepsLinks_of_same fun _ => rfl
  case program ran => exact leaves_bind_ok (mapStop_ok ran) leaves

/-- What a run leaves has the links of all states that it comes to. -/
theorem ReachesFrom.leaves {task task' : Task} {m' : Machine} {calls : Nat}
    (reached : ReachesFrom limits task m calls task' m')
    (leaves : Leaves links (task'.run limits m')) : Leaves links (task.run limits m) := by
  induction reached with
  | start => exact leaves
  | step _ starts ih => exact ih (starts.leaves leaves)

end TernLang.Eval
