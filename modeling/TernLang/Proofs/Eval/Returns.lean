import TernLang.Proofs.Eval.Refusal

/-! # Where a return comes from

A `return` ends the statements around it, up to the body of the call that they belong
to. **A statement ends with a `return` exactly if, without entering another call, it
comes to a `return` statement that is executed** (`execute_returned_iff`), and it leaves
the very machine that this statement leaves. The top level has no call around it: a
program reports the `return` as a fault exactly if it comes to one in that way
(`executeProgram_illegal_iff`).

In one step, the `return` is the task itself or comes from a task that it starts
(`startsReturning_of_returns`), and it passes on from there (`Starts.returns`).
-/

namespace TernLang.Eval

variable {limits : Limits}

/-! ## Nothing but the top level reports a `return` -/

/-- A call of a function never ends with an illegal return: its body's return is its
value. -/
theorem spares_callFunction {closure : Closure} {values : List Value}
    {body : ScopeRef → Eval Completion} (spares : ∀ scope, Spares .illegalReturn (body scope)) :
    Spares .illegalReturn (callFunction limits closure values body) := by
  intro m cause line after stopped
  by_cases arity : values.length = closure.params.length
  · by_cases refused : limits.maxCallDepth ≤ (m.callDepth : Int)
    · rw [callFunction_refused arity refused] at stopped
      cases stopped
      simp [Fault.kind]
    · rw [callFunction_run arity refused] at stopped
      cases ran : body (bodyStart closure values m).1 (bodyStart closure values m).2 with
      | ok completion n =>
          rw [ran] at stopped
          cases stopped
      | error stop n =>
          rw [ran] at stopped
          cases stop with
          | fault inner place =>
              cases stopped
              exact spares _ _ _ _ _ ran
          | tooDeep =>
              cases stopped
              simp [Fault.kind]
          | outOfPasses => cases stopped
  · rw [callFunction_wrongArity arity] at stopped
    cases stopped
    simp [Fault.kind]

mutual

/-- No expression ends with an illegal return. -/
theorem spares_evaluate (limits : Limits) :
    ∀ (room : Nat) (s : ScopeRef) (e : Expr), Spares .illegalReturn (evaluate limits room s e)
  | 0, _, _ => by unfold evaluate; exact spares_tooDeep
  | 1, _, _ => by unfold evaluate; exact spares_tooDeep
  | room + 2, s, e => by
      have inner := spares_evaluate limits room s
      have all := spares_evaluateAll limits room s
      unfold evaluate
      refine Spares.located ?_ _
      -- operations on values report other faults, and a call keeps the returns of its body
      cases e with
      | literal value line => exact spares_pure _
      | var name line =>
          exact spares_lookup (by decide) s name
      | grouping e line => exact inner e
      | assign name value line =>
          refine (inner value).bind fun result => ?_
          exact (spares_assign (by decide) s name result).bind fun _ => spares_pure _
      | increment name step line => exact spares_increment (by decide) s name step
      | logical left op right line =>
          cases op with
          | or =>
              refine (inner left).bind fun value => ?_
              split
              · exact spares_pure _
              · exact inner right
          | and =>
              refine (inner left).bind fun value => ?_
              split
              · exact inner right
              · exact spares_pure _
      | binary left op right line =>
          refine (inner left).bind fun a => (inner right).bind fun b => ?_
          exact spares_binary (by decide) room op a b
      | unary op right line =>
          cases op with
          | negate => exact (inner right).bind (spares_negate (by decide))
          | not => exact (inner right).bind fun _ => spares_pure _
      | call callee arguments line =>
          refine (inner callee).bind fun f => (all arguments).bind fun values => ?_
          exact spares_apply limits room f values
      | member target name line =>
          exact (inner target).bind fun value => spares_member (by decide) value name
      | list elements line => exact (all elements).bind fun _ => spares_newList _
      | index target position line =>
          refine (inner target).bind fun list => (inner position).bind fun i => ?_
          exact spares_index (by decide) list i
      | slice target low high line =>
          refine (inner target).bind fun list => ?_
          refine (spares_optional inner low).bind fun first => ?_
          refine (spares_optional inner high).bind fun last => ?_
          exact spares_slice (by decide) list first last

theorem spares_evaluateAll (limits : Limits) :
    ∀ (room : Nat) (s : ScopeRef) (all : List Expr), Spares .illegalReturn (evaluateAll limits room s all)
  | 0, _, _ => by unfold evaluateAll; exact spares_tooDeep
  | room + 1, s, all => by
      unfold evaluateAll
      exact spares_each (spares_evaluate limits room s) all

/-- **No call reports a `return`**, whatever its body does. -/
theorem spares_apply (limits : Limits) :
    ∀ (room : Nat) (callee : Value) (values : List Value),
      Spares .illegalReturn (apply limits room callee values)
  | 0, _, _ => by unfold apply; exact spares_tooDeep
  | 1, _, _ => by unfold apply; exact spares_tooDeep
  | 2, _, _ => by unfold apply; exact spares_tooDeep
  | room + 3, callee, values => by
      unfold apply
      cases callee with
      | function ref =>
          refine (spares_closure (by decide) ref).bind fun c => ?_
          refine spares_callFunction fun scope => ?_
          exact spares_sequence (spares_execute limits room scope) c.body
      | native native => exact spares_callNative (by decide) room native values
      | _ => exact spares_fault (by simp [Fault.kind])

/-- No statement ends with an illegal return: it passes the return on, and the top level
decides. -/
theorem spares_execute (limits : Limits) :
    ∀ (room : Nat) (s : ScopeRef) (stmt : Stmt), Spares .illegalReturn (execute limits room s stmt)
  | 0, _, _ => by unfold execute; exact spares_tooDeep
  | 1, _, _ => by unfold execute; exact spares_tooDeep
  | room + 2, s, stmt => by
      have inner := spares_evaluate limits room s
      unfold execute
      refine Spares.located ?_ _
      cases stmt with
      | expression e line => exact (inner e).bind fun _ => spares_pure _
      | print e line =>
          refine (inner e).bind fun value => ?_
          exact (spares_print room value).bind fun _ => spares_pure _
      | varDecl name initial line =>
          refine (spares_optional inner initial).bind fun value => ?_
          exact (spares_update _).bind fun _ => spares_pure _
      | block body line => exact spares_executeBlock limits room s body
      | ifElse condition thenBranch elseBranch line =>
          refine (inner condition).bind fun value => ?_
          split
          · exact spares_execute limits room s thenBranch
          · cases elseBranch with
            | none => exact spares_pure _
            | some branch => exact spares_execute limits room s branch
      | whileLoop condition body line =>
          exact spares_loop (inner condition) (spares_execute limits room s body) _
      | returnValue value line =>
          exact (spares_optional inner value).bind fun _ => spares_pure _
      | funDecl name params body line =>
          refine (spares_allocate _).bind fun ref => ?_
          exact (spares_update _).bind fun _ => spares_pure _

theorem spares_executeBlock (limits : Limits) :
    ∀ (room : Nat) (s : ScopeRef) (body : List Stmt),
      Spares .illegalReturn (executeBlock limits room s body)
  | 0, _, _ => by unfold executeBlock; exact spares_tooDeep
  | room + 1, s, body => by
      unfold executeBlock
      refine (spares_allocate _).bind fun inner => ?_
      exact spares_sequence (spares_execute limits room inner) body

end

/-- A stop of a statement is no report of a `return`, and neither is what the top level
makes of it. -/
theorem execute_atTopLevel_ne {room place : Nat} {s : ScopeRef} {stmt : Stmt} {m after : Machine}
    {stop : Stop} {line : Option Nat} (stopped : execute limits room s stmt m = .error stop after) :
    stop.atTopLevel place ≠ .fault .returnOutsideFunction line := by
  intro illegal
  cases stop with
  | fault cause given =>
      cases illegal
      exact spares_execute limits room s stmt m _ line after stopped rfl
  | tooDeep => cases illegal
  | outOfPasses => cases illegal

/-! ## One step -/

/-- The task ends with a `return` of the value on the line and leaves the machine
`after`; a program reports the `return` instead. -/
def Task.Returns (limits : Limits) (v : Value) (line : Nat) (after : Machine) :
    Task → Machine → Prop
  | .stmt room s one, m => execute limits room s one m = .ok (.returned v line) after
  | .stmts room s all, m => sequence (execute limits room s) all m = .ok (.returned v line) after
  | .loop room s condition body passes, m =>
      Eval.loop (evaluate limits room s condition) (execute limits room s body) passes m =
        .ok (.returned v line) after
  | .program room s all, m =>
      executeProgram limits room s all m =
        .error (.fault .returnOutsideFunction (some line)) after
  | .expr _ _ _, _ | .exprs _ _ _, _ | .call _ _ _, _ => False

section Step

variable {v : Value} {line : Nat} {m after : Machine}

/-- A `return` ends whatever has started it, up to the call around it. -/
theorem Starts.returns {task task' : Task} {m' : Machine}
    (starts : Starts limits task m 0 task' m') (returns : task'.Returns limits v line after m') :
    task.Returns limits v line after m := by
  -- no call is entered, so that the starter passes the return on as it is
  cases starts with
  | block ran =>
      show execute limits _ _ _ m = _
      rw [execute]
      refine mapStop_ok ?_
      rw [executeBlock, bind_run_ok ran]
      exact returns
  | branch ran taken =>
      show execute limits _ _ _ m = _
      unfold execute
      refine mapStop_ok ?_
      refine (bind_run_ok ran).trans ?_
      rename_i value branch
      by_cases truthy : value.truthy = true
      · simp only [if_pos truthy, Option.some.injEq] at taken ⊢
        rw [taken]
        exact returns
      · simp only [if_neg truthy] at taken ⊢
        rw [taken]
        exact returns
  | loop =>
      show execute limits _ _ _ m = _
      rw [execute]
      exact mapStop_ok returns
  | pass ran truthy =>
      show Eval.loop _ _ _ m = _
      rw [Eval.loop, bind_run_ok ran, if_pos truthy, bind_run_ok returns]
      rfl
  | again ran truthy ran' =>
      show Eval.loop _ _ _ m = _
      rw [Eval.loop, bind_run_ok ran, if_pos truthy, bind_run_ok ran']
      exact returns
  | statement =>
      show sequence _ _ m = _
      rw [sequence, bind_run_ok returns]
      rfl
  | statements ran =>
      show sequence _ _ m = _
      rw [sequence, bind_run_ok ran]
      exact returns
  | topLevel =>
      show executeProgram limits _ _ _ m = _
      rw [executeProgram, bind_run_ok (mapStop_ok returns)]
      rfl
  | program ran =>
      show executeProgram limits _ _ _ m = _
      rw [executeProgram, bind_run_ok (mapStop_ok ran)]
      exact returns
  | first | second | lastBound | elements | arguments | call | head | tail | operand | condition =>
      exact returns.elim

/-- Some task that is started, and not as the body of a call, ends with a `return` on
the line. -/
def StartsReturning (limits : Limits) (line : Nat) (after : Machine) (task : Task)
    (m : Machine) : Prop :=
  ∃ task' m' v, Starts limits task m 0 task' m' ∧ task'.Returns limits v line after m'

/-- A task that starts, without a call in between, a task that returns has started a
returning task. -/
theorem Starts.returning {task task' : Task} {m' : Machine}
    (starts : Starts limits task m 0 task' m') (returns : task'.Returns limits v line after m') :
    StartsReturning limits line after task m :=
  ⟨task', m', v, starts, returns⟩

/-- A computation that is followed by a rest gave the rest its turn, if both together
have a result. -/
theorem of_bind_ok {α β : Type} {action : Eval α} {rest : α → Eval β} {b : β}
    (ran : (action >>= rest) m = .ok b after) :
    ∃ a n, action m = .ok a n ∧ rest a n = .ok b after := by
  rw [bind_run] at ran
  cases first : action m with
  | ok a n =>
      rw [first] at ran
      exact ⟨a, n, rfl, ran⟩
  | error stop n =>
      rw [first] at ran
      cases ran

/-- A statement that returns is a return statement, or has started a returning task. -/
theorem execute_startsReturning {room : Nat} {s : ScopeRef} {stmt : Stmt}
    (returns : execute limits (room + 2) s stmt m = .ok (.returned v line) after) :
    (∃ value, stmt = .returnValue value line) ∨
      StartsReturning limits line after (.stmt (room + 2) s stmt) m := by
  unfold execute at returns
  have ran := of_mapStop_ok returns
  -- a return comes from a part that is a statement, or is the statement
  cases stmt with
  | expression e place =>
      obtain ⟨_, _, -, ended⟩ := of_bind_ok ran
      cases ended
  | print e place =>
      obtain ⟨_, _, -, printed⟩ := of_bind_ok ran
      obtain ⟨_, _, -, ended⟩ := of_bind_ok printed
      cases ended
  | varDecl name initial place =>
      obtain ⟨_, _, -, declared⟩ := of_bind_ok ran
      obtain ⟨_, _, -, ended⟩ := of_bind_ok declared
      cases ended
  | block body place =>
      cases room with
      | zero => cases ran
      | succ room =>
          obtain ⟨inner, n, opened, inside⟩ := of_bind_ok ran
          exact .inr ((Starts.block opened).returning inside)
  | ifElse condition thenBranch elseBranch place =>
      obtain ⟨value, n, tested, taken⟩ := of_bind_ok ran
      by_cases truthy : value.truthy = true
      · rw [if_pos truthy] at taken
        exact .inr ((Starts.branch tested (if_pos truthy)).returning taken)
      · rw [if_neg truthy] at taken
        cases elseBranch with
        | none => cases taken
        | some branch => exact .inr ((Starts.branch tested (if_neg truthy)).returning taken)
  | whileLoop condition body place => exact .inr (Starts.loop.returning ran)
  | returnValue value place =>
      obtain ⟨result, n, -, ended⟩ := of_bind_ok ran
      cases ended
      exact .inl ⟨value, rfl⟩
  | funDecl name params body place =>
      obtain ⟨_, _, -, declared⟩ := of_bind_ok ran
      obtain ⟨_, _, -, ended⟩ := of_bind_ok declared
      cases ended

/-- The `return` is the task itself, or it comes from a task that it starts. -/
theorem startsReturning_of_returns {task : Task} (returns : task.Returns limits v line after m) :
    (∃ room s value, task = .stmt room s (.returnValue value line)) ∨
      StartsReturning limits line after task m := by
  -- expressions and calls give values and never return
  cases task with
  | expr | exprs | call => exact returns.elim
  | stmt room s stmt =>
      match room with
      | 0 | 1 =>
          unfold Task.Returns execute at returns
          cases returns
      | room + 2 =>
          rcases execute_startsReturning returns with ⟨value, rfl⟩ | inside
          · exact .inl ⟨_, _, value, rfl⟩
          · exact .inr inside
  | stmts room s all =>
      cases all with
      | nil => cases returns
      | cons stmt rest =>
          obtain ⟨completion, n, ran, later⟩ := of_bind_ok returns
          cases completion with
          | normal => exact .inr ((Starts.statements ran).returning later)
          | returned value place =>
              cases later
              exact .inr (Starts.statement.returning ran)
  | loop room s condition body passes =>
      cases passes with
      | zero => cases returns
      | succ passes =>
          obtain ⟨value, n, tested, later⟩ := of_bind_ok returns
          by_cases truthy : value.truthy = true
          · rw [if_pos truthy] at later
            obtain ⟨completion, o, ran, again⟩ := of_bind_ok later
            cases completion with
            | normal => exact .inr ((Starts.again tested truthy ran).returning again)
            | returned value place =>
                cases again
                exact .inr ((Starts.pass tested truthy).returning ran)
          · rw [if_neg truthy] at later
            cases later
  | program room s all =>
      refine .inr ?_
      cases all with
      | nil => cases returns
      | cons stmt rest =>
          replace returns : executeProgram limits room s (stmt :: rest) m =
            .error (.fault .returnOutsideFunction (some line)) after := returns
          rw [executeProgram, bind_run] at returns
          cases ran : execute limits room s stmt m with
          | ok completion n =>
              rw [mapStop_ok ran] at returns
              cases completion with
              | normal => exact ⟨_, n, v, .program ran, returns⟩
              | returned value place =>
                  cases returns
                  exact Starts.topLevel.returning ran
          | error stop n =>
              simp only [mapStop, ran, EStateM.Result.error.injEq] at returns
              exact absurd returns.1 (execute_atTopLevel_ne ran)

end Step

/-! ## The whole run -/

/-- Without entering another call, the task comes to a `return` statement on the line,
which is executed: it returns the value `v` and leaves the machine `after`. -/
def ComesToReturn (limits : Limits) (task : Task) (m : Machine) (value : Option Expr) (line : Nat)
    (v : Value) (after : Machine) : Prop :=
  ∃ room s n, ReachesFrom limits task m 0 (.stmt room s (.returnValue value line)) n ∧
    execute limits room s (.returnValue value line) n = .ok (.returned v line) after

section Run

variable {task task' : Task} {v : Value} {line : Nat} {value : Option Expr} {m m' after : Machine}

/-- A return reached without entering a call is the ending of the task. -/
theorem ReachesFrom.returns {calls : Nat} (reached : ReachesFrom limits task m calls task' m')
    (same : calls = 0) (returns : task'.Returns limits v line after m') :
    task.Returns limits v line after m := by
  induction reached with
  | start => exact returns
  | step _ starts ih =>
      obtain ⟨rfl, rfl⟩ := Nat.add_eq_zero_iff.mp same
      exact ih rfl (starts.returns returns)

/-- A task that comes to a return statement of its own call ends with its value. -/
theorem ComesToReturn.returns (comes : ComesToReturn limits task m value line v after) :
    task.Returns limits v line after m := by
  obtain ⟨room, s, n, reached, executed⟩ := comes
  exact reached.returns rfl executed

/-- What comes to a `return` later on comes to it. -/
theorem ComesToReturn.after_reaching (reached : ReachesFrom limits task m 0 task' m')
    (comes : ComesToReturn limits task' m' value line v after) :
    ComesToReturn limits task m value line v after := by
  obtain ⟨room, s, n, later, executed⟩ := comes
  exact ⟨room, s, n, reached.trans later, executed⟩

/-- Whatever ends with a `return` has come to one. -/
theorem comesToReturn_of_returns (task : Task) {m : Machine} {v : Value}
    (returns : task.Returns limits v line after m) :
    ∃ value v', ComesToReturn limits task m value line v' after := by
  rcases startsReturning_of_returns returns with ⟨room, s, value, rfl⟩ | ⟨task', m', w, starts, inner⟩
  · exact ⟨value, v, room, s, m, .start, returns⟩
  · obtain ⟨value, v', comes⟩ := comesToReturn_of_returns task' inner
    exact ⟨value, v', comes.after_reaching starts.reaches⟩
termination_by (task.room, task.remaining)
decreasing_by exact starts.decreases

/-- **A statement ends with a `return` exactly if it comes to one** without entering
another call. -/
theorem execute_returned_iff {room : Nat} {s : ScopeRef} {stmt : Stmt} :
    execute limits room s stmt m = .ok (.returned v line) after ↔
      ∃ value, ComesToReturn limits (.stmt room s stmt) m value line v after := by
  constructor
  · intro returned
    obtain ⟨value, v', comes⟩ := comesToReturn_of_returns (.stmt room s stmt) returned
    -- both values are the one of the statement
    have same : execute limits room s stmt m = .ok (.returned v' line) after := comes.returns
    rw [returned] at same
    cases same
    exact ⟨value, comes⟩
  · rintro ⟨value, comes⟩
    exact comes.returns

/-- **A program reports a `return` exactly if it comes to one** without entering a call,
and then it stops on the machine that this `return` leaves. -/
theorem executeProgram_illegal_iff {room : Nat} {s : ScopeRef} {stmts : List Stmt} :
    executeProgram limits room s stmts m =
        .error (.fault .returnOutsideFunction (some line)) after ↔
      ∃ value v, ComesToReturn limits (.program room s stmts) m value line v after := by
  constructor
  · intro stopped
    have returns : Task.Returns limits .null line after (.program room s stmts) m := stopped
    exact comesToReturn_of_returns _ returns
  · rintro ⟨value, v, comes⟩
    exact comes.returns

end Run

end TernLang.Eval
