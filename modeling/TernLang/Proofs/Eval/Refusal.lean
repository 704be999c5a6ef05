import TernLang.Proofs.Eval.Spares
import TernLang.Proofs.Eval.Tasks

/-! # Where a refused call comes from

A call that would exceed the limit is refused: it stops with a fault of its own.
Nothing in the language catches a fault, and nothing else raises this one. So **a
task stops because of a refused call exactly if it comes to a call that is refused**
(`refuses_iff_reaches`), and it leaves the heap and the printed lines as they were
at that call.

In one step, the stop comes from the task itself or from a task that it starts
(`startsRefusing_of_refuses`), and it passes on from there (`Starts.refuses`). The
whole run follows because tasks get smaller.
-/

namespace TernLang.Eval

/-- The computation has stopped because a call of a function was refused, with the
heap and the output of the machine `left`. -/
def Refuses {α : Type} (limit : Int) (name : String) (left : Machine) :
    EStateM.Result Stop Machine α → Prop
  | .ok _ _ => False
  | .error stop after => (∃ line, stop = .fault (.callsTooDeep limit name) line) ∧
      after.heap = left.heap ∧ after.output = left.output

/-- The computation never stops because of a refused call. -/
def NeverRefuses {α : Type} (action : Eval α) : Prop :=
  ∀ limit name left m, ¬ Refuses limit name left (action m)

variable {α β : Type} {limits : Limits} {limit : Int} {name : String} {left m : Machine}

/-! ## Rules -/

/-- A sequence is refused in its first part, or in the rest after the first part has
succeeded. -/
theorem refuses_bind {action : Eval α} {rest : α → Eval β} :
    Refuses limit name left ((action >>= rest) m) ↔
      Refuses limit name left (action m) ∨
        ∃ a n, action m = .ok a n ∧ Refuses limit name left (rest a n) := by
  rw [bind_run]
  cases action m with
  | ok a n =>
      constructor
      · exact fun later => .inr ⟨a, n, rfl, later⟩
      · rintro (first | ⟨_, _, same, later⟩)
        · exact first.elim
        · cases same
          exact later
  | error stop n =>
      constructor
      · exact .inl
      · rintro (first | ⟨_, _, same, -⟩)
        · exact first
        · cases same

/-- After a computation that never refuses, only the rest counts. -/
theorem NeverRefuses.refuses_bind {action : Eval α} {rest : α → Eval β}
    (never : NeverRefuses action) :
    Refuses limit name left ((action >>= rest) m) ↔
      ∃ a n, action m = .ok a n ∧ Refuses limit name left (rest a n) := by
  rw [Eval.refuses_bind, or_iff_right (never limit name left m)]

/-- Only heap and output of the machine left behind count; its depth counter is another. -/
theorem Refuses.left_eq {left' : Machine} {result : EStateM.Result Stop Machine α}
    (refuses : Refuses limit name left result) (heap : left.heap = left'.heap)
    (output : left.output = left'.output) : Refuses limit name left' result := by
  cases result with
  | ok a after => exact refuses
  | error stop after => exact ⟨refuses.1, refuses.2.1.trans heap, refuses.2.2.trans output⟩

/-- A change of stops that turns exactly refusals into refusals keeps what is refused. -/
theorem refuses_mapStop {action : Eval α} {change : Stop → Stop}
    (keeps : ∀ stop, (∃ line, change stop = .fault (.callsTooDeep limit name) line) ↔
      ∃ line, stop = .fault (.callsTooDeep limit name) line) :
    Refuses limit name left (mapStop change action m) ↔
      Refuses limit name left (action m) := by
  unfold mapStop
  cases action m with
  | ok a after => exact Iff.rfl
  | error stop after => exact and_congr_left' (keeps stop)

theorem refuses_located {action : Eval α} {line : Nat} :
    Refuses limit name left (mapStop (Stop.located line) action m) ↔
      Refuses limit name left (action m) := by
  refine refuses_mapStop fun stop => ?_
  cases stop with
  | fault cause given => cases given <;> simp [Stop.located]
  | tooDeep => simp [Stop.located]
  | outOfPasses => simp [Stop.located]

theorem refuses_atTopLevel {action : Eval α} {line : Nat} :
    Refuses limit name left (mapStop (Stop.atTopLevel line) action m) ↔
      Refuses limit name left (action m) := by
  refine refuses_mapStop fun stop => ?_
  cases stop <;> simp [Stop.atTopLevel]

/-- A refusal passes through the call it happens in. -/
theorem refuses_leaveCall {callee : String} {result : EStateM.Result Stop Machine Completion} :
    Refuses limit name left (leaveCall callee result) ↔ Refuses limit name left result := by
  cases result with
  | ok completion after => exact Iff.rfl
  | error stop after =>
      refine and_congr_left' ?_
      cases stop <;> simp [Stop.inCall]

theorem refuses_forget {action : Eval α} :
    Refuses limit name left (forget action m) ↔ Refuses limit name left (action m) := by
  unfold forget
  cases action m <;> exact Iff.rfl

/-- No operation refuses a call: it is a fault of its own kind. -/
theorem Spares.neverRefuses {action : Eval α} (spares : Spares .stackOverflow action) :
    NeverRefuses action := by
  intro limit name left m refuses
  cases ran : action m with
  | ok a n =>
      rw [ran] at refuses
      exact refuses
  | error stop n =>
      rw [ran] at refuses
      obtain ⟨⟨line, rfl⟩, -⟩ := refuses
      exact spares m _ line n ran rfl

/-- Looking up a function that is there changes nothing and gives its closure. -/
theorem closure_run {ref : FunctionRef} {c : Closure} {n : Machine}
    (found : closure ref m = .ok c n) : m.heap.functions[ref.id]? = some c ∧ n = m := by
  unfold closure at found
  split at found
  · rename_i c' here
    cases found
    exact ⟨here, rfl⟩
  · cases found

/-! ## One step -/

/-- The task is a call of a function with the right number of arguments that is refused
because of the limit. -/
inductive Refused (limits : Limits) : Task → Machine → Int → String → Prop
  | mk {room ref values closure m} : m.heap.functions[ref.id]? = some closure →
      values.length = closure.params.length → limits.maxCallDepth ≤ (m.callDepth : Int) →
      Refused limits (.call (room + 3) (.function ref) values) m limits.maxCallDepth closure.name

/-- Some task that is started stops because of a refused call. -/
def StartsRefusing (limits : Limits) (task : Task) (m : Machine) (limit : Int) (name : String)
    (left : Machine) : Prop :=
  ∃ calls task' m', Starts limits task m calls task' m' ∧
    Refuses limit name left (task'.run limits m')

/-- A task that starts a refused task is refused, at the machine the other was refused
at. -/
theorem Starts.refusing {task task' : Task} {m' : Machine} {calls : Nat}
    (starts : Starts limits task m calls task' m')
    (refuses : Refuses limit name left (task'.run limits m')) :
    StartsRefusing limits task m limit name left :=
  ⟨calls, task', m', starts, refuses⟩

/-- A refused expression is a call refused itself, or has started a refused task. -/
theorem evaluate_startsRefusing {room : Nat} {s : ScopeRef} {e : Expr}
    (refuses : Refuses limit name left (evaluate limits (room + 2) s e m)) :
    StartsRefusing limits (.expr (room + 2) s e) m limit name left := by
  unfold evaluate at refuses
  rw [refuses_located] at refuses
  -- a refusal in an operand was started; operations on values never refuse
  cases e with
  | literal value line => exact refuses.elim
  | var name line =>
      exact absurd refuses ((spares_lookup (by decide) s name).neverRefuses _ _ _ _)
  | increment name step line =>
      exact absurd refuses ((spares_increment (by decide) s name step).neverRefuses _ _ _ _)
  | grouping inner line => exact (Starts.first rfl).refusing (refuses_forget.mpr refuses)
  | assign name value line =>
      rcases refuses_bind.mp refuses with first | ⟨v, n, ran, later⟩
      · exact (Starts.first rfl).refusing (refuses_forget.mpr first)
      · refine absurd later (Spares.neverRefuses ((spares_assign (by decide) s name v).bind
          fun _ => ?_) _ _ _ _)
        exact spares_pure v
  | logical left op right line =>
      cases op with
      | or =>
          rcases refuses_bind.mp refuses with first | ⟨v, n, ran, later⟩
          · exact (Starts.first rfl).refusing (refuses_forget.mpr first)
          · split at later
            · exact later.elim
            · rename_i falsy
              exact (Starts.second rfl ran (by simp [Expr.second?, falsy])).refusing
                (refuses_forget.mpr later)
      | and =>
          rcases refuses_bind.mp refuses with first | ⟨v, n, ran, later⟩
          · exact (Starts.first rfl).refusing (refuses_forget.mpr first)
          · split at later
            · rename_i truthy
              exact (Starts.second rfl ran (by simp [Expr.second?, truthy])).refusing
                (refuses_forget.mpr later)
            · exact later.elim
  | binary left op right line =>
      rcases refuses_bind.mp refuses with first | ⟨a, n, ran, later⟩
      · exact (Starts.first rfl).refusing (refuses_forget.mpr first)
      · rcases refuses_bind.mp later with second | ⟨b, o, ran', last⟩
        · exact (Starts.second rfl ran rfl).refusing (refuses_forget.mpr second)
        · exact absurd last ((spares_binary (by decide) room op a b).neverRefuses _ _ _ _)
  | unary op right line =>
      cases op with
      | negate =>
          rcases refuses_bind.mp refuses with first | ⟨v, n, ran, later⟩
          · exact (Starts.first rfl).refusing (refuses_forget.mpr first)
          · exact absurd later ((spares_negate (by decide) v).neverRefuses _ _ _ _)
      | not =>
          rcases refuses_bind.mp refuses with first | ⟨v, n, ran, later⟩
          · exact (Starts.first rfl).refusing (refuses_forget.mpr first)
          · exact later.elim
  | call callee arguments line =>
      rcases refuses_bind.mp refuses with first | ⟨f, n, ran, later⟩
      · exact (Starts.first rfl).refusing (refuses_forget.mpr first)
      · rcases refuses_bind.mp later with given | ⟨values, o, ran', applied⟩
        · cases room with
          | zero => exact absurd given (spares_tooDeep.neverRefuses _ _ _ _)
          | succ room => exact (Starts.arguments ran).refusing (refuses_forget.mpr given)
        · exact (Starts.call ran ran').refusing (refuses_forget.mpr applied)
  | member target name line =>
      rcases refuses_bind.mp refuses with first | ⟨v, n, ran, later⟩
      · exact (Starts.first rfl).refusing (refuses_forget.mpr first)
      · exact absurd later ((spares_member (by decide) v name).neverRefuses _ _ _ _)
  | list elements line =>
      rcases refuses_bind.mp refuses with given | ⟨values, n, ran, later⟩
      · cases room with
        | zero => exact absurd given (spares_tooDeep.neverRefuses _ _ _ _)
        | succ room => exact Starts.elements.refusing (refuses_forget.mpr given)
      · exact absurd later ((spares_newList _).neverRefuses _ _ _ _)
  | index target position line =>
      rcases refuses_bind.mp refuses with first | ⟨list, n, ran, later⟩
      · exact (Starts.first rfl).refusing (refuses_forget.mpr first)
      · rcases refuses_bind.mp later with second | ⟨i, o, ran', last⟩
        · exact (Starts.second rfl ran rfl).refusing (refuses_forget.mpr second)
        · exact absurd last ((spares_index (by decide) list i).neverRefuses _ _ _ _)
  | slice target low high line =>
      rcases refuses_bind.mp refuses with first | ⟨list, n, ran, later⟩
      · exact (Starts.first rfl).refusing (refuses_forget.mpr first)
      · rcases refuses_bind.mp later with second | ⟨from?, o, ran', last⟩
        · cases low with
          | none => exact second.elim
          | some low =>
              rcases refuses_bind.mp second with given | ⟨_, _, _, done⟩
              · exact (Starts.second rfl ran rfl).refusing (refuses_forget.mpr given)
              · exact done.elim
        · rcases refuses_bind.mp last with third | ⟨to?, p, ran'', rest⟩
          · cases high with
            | none => exact third.elim
            | some high =>
                rcases refuses_bind.mp third with given | ⟨_, _, _, done⟩
                · exact (Starts.lastBound ran ran').refusing (refuses_forget.mpr given)
                · exact done.elim
          · exact absurd rest ((spares_slice (by decide) list from? to?).neverRefuses _ _ _ _)

/-- A refused application is refused at the limit, or its body has been refused. -/
theorem apply_startsRefusing {room : Nat} {callee : Value} {values : List Value}
    (refuses : Refuses limit name left (apply limits (room + 3) callee values m)) :
    (Refused limits (.call (room + 3) callee values) m limit name ∧
        m.heap = left.heap ∧ m.output = left.output) ∨
      StartsRefusing limits (.call (room + 3) callee values) m limit name left := by
  unfold apply at refuses
  cases callee with
  | function ref =>
      have reads := (spares_closure (by decide) ref).neverRefuses
      obtain ⟨c, n, found, later⟩ := reads.refuses_bind.mp refuses
      obtain ⟨found, same⟩ := closure_run found
      rw [same] at later
      by_cases arity : values.length = c.params.length
      · by_cases refused : limits.maxCallDepth ≤ (m.callDepth : Int)
        · rw [callFunction_refused arity refused] at later
          obtain ⟨⟨line, same⟩, kept⟩ := later
          cases same
          exact .inl ⟨.mk found arity refused, kept⟩
        · rw [callFunction_run arity refused, refuses_leaveCall] at later
          have runs : RunsBody limits c values m (bodyStart c values m).1
              (bodyStart c values m).2 := runsBody_iff.mpr ⟨arity, not_le.mp refused, rfl⟩
          exact .inr ((Starts.body found runs).refusing (refuses_forget.mpr later))
      · rw [callFunction_wrongArity arity] at later
        exact absurd later ((spares_fault (by simp [Fault.kind])).neverRefuses _ _ _ _)
  | native native =>
      exact absurd refuses ((spares_callNative (by decide) room native values).neverRefuses
        _ _ _ _)
  | _ => exact absurd refuses ((spares_fault (by simp [Fault.kind])).neverRefuses _ _ _ _)

/-- A refused statement has started a refused task. -/
theorem execute_startsRefusing {room : Nat} {s : ScopeRef} {stmt : Stmt}
    (refuses : Refuses limit name left (execute limits (room + 2) s stmt m)) :
    StartsRefusing limits (.stmt (room + 2) s stmt) m limit name left := by
  unfold execute at refuses
  rw [refuses_located] at refuses
  -- only the parts of a statement can be refused, not what it does with their values
  cases stmt with
  | expression e line =>
      rcases refuses_bind.mp refuses with first | ⟨v, n, ran, later⟩
      · exact (Starts.operand rfl).refusing (refuses_forget.mpr first)
      · exact later.elim
  | print e line =>
      rcases refuses_bind.mp refuses with first | ⟨v, n, ran, later⟩
      · exact (Starts.operand rfl).refusing (refuses_forget.mpr first)
      · refine absurd later (Spares.neverRefuses ((spares_print room v).bind fun _ => ?_) _ _ _ _)
        exact spares_pure _
  | varDecl name initial line =>
      rcases refuses_bind.mp refuses with first | ⟨v, n, ran, later⟩
      · cases initial with
        | none => exact first.elim
        | some e =>
            rcases refuses_bind.mp first with given | ⟨_, _, _, done⟩
            · exact (Starts.operand rfl).refusing (refuses_forget.mpr given)
            · exact done.elim
      · exact absurd later (((spares_update _).bind fun _ => spares_pure _).neverRefuses _ _ _ _)
  | block body line =>
      cases room with
      | zero => exact absurd refuses (spares_tooDeep.neverRefuses _ _ _ _)
      | succ room =>
          obtain ⟨inner, n, ran, later⟩ :=
            (spares_allocate _).neverRefuses.refuses_bind.mp refuses
          exact (Starts.block ran).refusing (refuses_forget.mpr later)
  | ifElse condition thenBranch elseBranch line =>
      rcases refuses_bind.mp refuses with first | ⟨v, n, ran, later⟩
      · exact (Starts.operand rfl).refusing (refuses_forget.mpr first)
      · split at later
        · rename_i truthy
          exact (Starts.branch ran (if_pos truthy)).refusing (refuses_forget.mpr later)
        · rename_i falsy
          cases elseBranch with
          | none => exact later.elim
          | some branch =>
              exact (Starts.branch ran (if_neg falsy)).refusing (refuses_forget.mpr later)
  | whileLoop condition body line => exact Starts.loop.refusing (refuses_forget.mpr refuses)
  | returnValue value line =>
      rcases refuses_bind.mp refuses with first | ⟨v, n, ran, later⟩
      · cases value with
        | none => exact first.elim
        | some e =>
            rcases refuses_bind.mp first with given | ⟨_, _, _, done⟩
            · exact (Starts.operand rfl).refusing (refuses_forget.mpr given)
            · exact done.elim
      · exact later.elim
  | funDecl name params body line =>
      refine absurd refuses (Spares.neverRefuses ((spares_allocate _).bind fun ref => ?_) _ _ _ _)
      exact (spares_update _).bind fun _ => spares_pure _

/-- A refused loop has started a refused test, body or further pass. -/
theorem loop_startsRefusing {room passes : Nat} {s : ScopeRef} {condition : Expr} {body : Stmt}
    (refuses : Refuses limit name left (Task.run limits (.loop room s condition body passes) m)) :
    StartsRefusing limits (.loop room s condition body passes) m limit name left := by
  cases passes with
  | zero =>
      obtain ⟨⟨line, same⟩, -⟩ := refuses
      cases same
  | succ passes =>
      rw [Task.run, refuses_forget, Eval.loop] at refuses
      rcases refuses_bind.mp refuses with first | ⟨v, n, ran, later⟩
      · exact Starts.condition.refusing (refuses_forget.mpr first)
      · split at later
        · rename_i truthy
          rcases refuses_bind.mp later with inside | ⟨completion, o, ran', again⟩
          · exact (Starts.pass ran truthy).refusing (refuses_forget.mpr inside)
          · cases completion with
            | normal =>
                exact (Starts.again ran truthy ran').refusing (refuses_forget.mpr again)
            | returned value line => exact again.elim
        · exact later.elim

/-- The stop comes from the task itself, which is then a call, or from a task that it
starts. -/
theorem startsRefusing_of_refuses {task : Task}
    (refuses : Refuses limit name left (task.run limits m)) :
    (Refused limits task m limit name ∧ m.heap = left.heap ∧ m.output = left.output) ∨
      StartsRefusing limits task m limit name left := by
  -- a task without room gives up, which is no refusal
  cases task with
  | expr room s e =>
      rw [Task.run, refuses_forget] at refuses
      match room with
      | 0 | 1 =>
          unfold evaluate at refuses
          exact absurd refuses (spares_tooDeep.neverRefuses _ _ _ _)
      | room + 2 => exact .inr (evaluate_startsRefusing refuses)
  | exprs room s all =>
      rw [Task.run, refuses_forget] at refuses
      cases all with
      | nil => exact refuses.elim
      | cons e rest =>
          rcases refuses_bind.mp refuses with first | ⟨v, n, ran, later⟩
          · exact .inr (Starts.head.refusing (refuses_forget.mpr first))
          · rcases refuses_bind.mp later with others | ⟨_, _, _, done⟩
            · exact .inr ((Starts.tail ran).refusing (refuses_forget.mpr others))
            · exact done.elim
  | call room callee values =>
      rw [Task.run, refuses_forget] at refuses
      match room with
      | 0 | 1 | 2 =>
          unfold apply at refuses
          exact absurd refuses (spares_tooDeep.neverRefuses _ _ _ _)
      | room + 3 => exact apply_startsRefusing refuses
  | stmt room s stmt =>
      rw [Task.run, refuses_forget] at refuses
      match room with
      | 0 | 1 =>
          unfold execute at refuses
          exact absurd refuses (spares_tooDeep.neverRefuses _ _ _ _)
      | room + 2 => exact .inr (execute_startsRefusing refuses)
  | stmts room s all =>
      rw [Task.run, refuses_forget] at refuses
      cases all with
      | nil => exact refuses.elim
      | cons stmt rest =>
          rcases refuses_bind.mp refuses with first | ⟨completion, n, ran, later⟩
          · exact .inr (Starts.statement.refusing (refuses_forget.mpr first))
          · cases completion with
            | normal => exact .inr ((Starts.statements ran).refusing (refuses_forget.mpr later))
            | returned value line => exact later.elim
  | loop room s condition body passes => exact .inr (loop_startsRefusing refuses)
  | program room s all =>
      rw [Task.run] at refuses
      cases all with
      | nil => exact refuses.elim
      | cons stmt rest =>
          unfold executeProgram at refuses
          rcases refuses_bind.mp refuses with first | ⟨completion, n, ran, later⟩
          · rw [refuses_atTopLevel] at first
            exact .inr (Starts.topLevel.refusing (refuses_forget.mpr first))
          · cases completion with
            | normal => exact .inr ((Starts.program (of_mapStop_ok ran)).refusing later)
            | returned value line =>
                obtain ⟨⟨line, same⟩, -⟩ := later
                cases same

/-- The first operand of an expression is evaluated whatever the expression does. -/
theorem refuses_of_first {room : Nat} {s : ScopeRef} {e a : Expr} (operand : e.first? = some a)
    (refuses : Refuses limit name left (evaluate limits room s a m)) :
    Refuses limit name left (evaluate limits (room + 2) s e m) := by
  unfold evaluate
  rw [refuses_located]
  cases e with
  | literal | var | increment | list => cases operand
  | grouping inner line =>
      cases operand
      exact refuses
  | logical left op right line =>
      cases operand
      cases op <;> exact refuses_bind.mpr (.inl refuses)
  | unary op right line =>
      cases operand
      cases op <;> exact refuses_bind.mpr (.inl refuses)
  | assign | binary | call | member | index | slice =>
      cases operand
      exact refuses_bind.mpr (.inl refuses)

/-- A refusal in the second operand, after the first has been evaluated, is one of the
expression. -/
theorem refuses_of_second {room : Nat} {s : ScopeRef} {e a b : Expr} {v : Value} {n : Machine}
    (operand : e.first? = some a) (ran : evaluate limits room s a m = .ok v n)
    (next : e.second? v = some b)
    (refuses : Refuses limit name left (evaluate limits room s b n)) :
    Refuses limit name left (evaluate limits (room + 2) s e m) := by
  unfold evaluate
  rw [refuses_located]
  cases e with
  | literal | var | increment | list => cases operand
  | grouping | unary | assign | call | member => cases next
  | logical left op right line =>
      cases operand
      cases op with
      | or =>
          refine refuses_bind.mpr (.inr ⟨v, n, ran, ?_⟩)
          by_cases truthy : v.truthy = true
          · simp [Expr.second?, truthy] at next
          · simp only [Expr.second?, if_neg truthy, Option.some.injEq] at next ⊢
            rwa [next]
      | and =>
          refine refuses_bind.mpr (.inr ⟨v, n, ran, ?_⟩)
          by_cases truthy : v.truthy = true
          · simp only [Expr.second?, if_pos truthy, Option.some.injEq] at next ⊢
            rwa [next]
          · simp [Expr.second?, truthy] at next
  | binary | index =>
      cases operand
      cases next
      exact refuses_bind.mpr (.inr ⟨v, n, ran, refuses_bind.mpr (.inl refuses)⟩)
  | slice target low high line =>
      cases operand
      cases next
      refine refuses_bind.mpr (.inr ⟨v, n, ran, refuses_bind.mpr (.inl ?_)⟩)
      exact refuses_bind.mpr (.inl refuses)

/-- A refusal in the expression of a statement is one of the statement. -/
theorem refuses_of_operand {room : Nat} {s : ScopeRef} {stmt : Stmt} {e : Expr}
    (operand : stmt.operand? = some e)
    (refuses : Refuses limit name left (evaluate limits room s e m)) :
    Refuses limit name left (execute limits (room + 2) s stmt m) := by
  unfold execute
  rw [refuses_located]
  cases stmt with
  | block | whileLoop | funDecl => cases operand
  | expression | print | ifElse =>
      cases operand
      exact refuses_bind.mpr (.inl refuses)
  | varDecl | returnValue =>
      cases operand
      exact refuses_bind.mpr (.inl (refuses_bind.mpr (.inl refuses)))

/-- A refusal in the body of a function is one of the call. -/
theorem refuses_of_body {room : Nat} {ref : FunctionRef} {values : List Value} {c : Closure}
    {scope : ScopeRef} {n : Machine} (found : m.heap.functions[ref.id]? = some c)
    (runs : RunsBody limits c values m scope n)
    (refuses : Refuses limit name left (sequence (execute limits room scope) c.body n)) :
    Refuses limit name left (apply limits (room + 3) (.function ref) values m) := by
  obtain ⟨arity, below, here⟩ := runsBody_iff.mp runs
  have read : closure ref m = .ok c m := by simp [closure, found]
  unfold apply
  refine refuses_bind.mpr (.inr ⟨c, m, read, ?_⟩)
  rw [callFunction_run arity (not_le.mpr below), ← here, refuses_leaveCall]
  exact refuses

/-- Nothing catches the stop: a task stops if a task that it starts does. -/
theorem Starts.refuses {task task' : Task} {m' : Machine} {calls : Nat}
    (starts : Starts limits task m calls task' m')
    (refuses : Refuses limit name left (task'.run limits m')) :
    Refuses limit name left (task.run limits m) := by
  -- what the task has done before has succeeded, so the refusal comes next
  cases starts <;> simp only [Task.run, refuses_forget] at refuses ⊢
  case first operand => exact refuses_of_first operand refuses
  case second operand next ran => exact refuses_of_second operand ran next refuses
  case lastBound ran ran' =>
      rw [evaluate, refuses_located]
      refine refuses_bind.mpr (.inr ⟨_, _, ran, refuses_bind.mpr (.inr ⟨_, _, ran', ?_⟩)⟩)
      exact refuses_bind.mpr (.inl (refuses_bind.mpr (.inl refuses)))
  case elements =>
      rw [evaluate, refuses_located]
      exact refuses_bind.mpr (.inl refuses)
  case arguments ran =>
      rw [evaluate, refuses_located]
      exact refuses_bind.mpr (.inr ⟨_, _, ran, refuses_bind.mpr (.inl refuses)⟩)
  case call ran ran' =>
      rw [evaluate, refuses_located]
      exact refuses_bind.mpr (.inr ⟨_, _, ran, refuses_bind.mpr (.inr ⟨_, _, ran', refuses⟩)⟩)
  case body found runs => exact refuses_of_body found runs refuses
  case head => exact refuses_bind.mpr (.inl refuses)
  case tail ran => exact refuses_bind.mpr (.inr ⟨_, _, ran, refuses_bind.mpr (.inl refuses)⟩)
  case operand operand => exact refuses_of_operand operand refuses
  case block ran =>
      rw [execute, refuses_located]
      exact refuses_bind.mpr (.inr ⟨_, _, ran, refuses⟩)
  case branch v branch taken ran =>
      unfold execute
      rw [refuses_located]
      refine refuses_bind.mpr (.inr ⟨v, m', ran, ?_⟩)
      by_cases truthy : v.truthy = true
      · simp only [if_pos truthy, Option.some.injEq] at taken ⊢
        rwa [taken]
      · simp only [if_neg truthy] at taken ⊢
        rwa [taken]
  case loop =>
      rw [execute, refuses_located]
      exact refuses
  case condition => exact refuses_bind.mpr (.inl refuses)
  case pass truthy ran =>
      refine refuses_bind.mpr (.inr ⟨_, _, ran, ?_⟩)
      rw [if_pos truthy]
      exact refuses_bind.mpr (.inl refuses)
  case again truthy ran ran' =>
      refine refuses_bind.mpr (.inr ⟨_, _, ran, ?_⟩)
      rw [if_pos truthy]
      exact refuses_bind.mpr (.inr ⟨_, _, ran', refuses⟩)
  case statement => exact refuses_bind.mpr (.inl refuses)
  case statements ran => exact refuses_bind.mpr (.inr ⟨_, _, ran, refuses⟩)
  case topLevel => exact refuses_bind.mpr (.inl (refuses_atTopLevel.mpr refuses))
  case program ran => exact refuses_bind.mpr (.inr ⟨_, _, mapStop_ok ran, refuses⟩)

/-! ## The whole run -/

/-- The stop comes from a call that was refused. -/
theorem reaches_of_refuses (task : Task) {m : Machine}
    (refuses : Refuses limit name left (task.run limits m)) :
    ∃ calls task' m', ReachesFrom limits task m calls task' m' ∧
      Refused limits task' m' limit name ∧ m'.heap = left.heap ∧ m'.output = left.output := by
  rcases startsRefusing_of_refuses refuses with here | ⟨calls, task', m', starts, inner⟩
  · exact ⟨0, task, m, .start, here⟩
  · obtain ⟨more, task'', m'', reached, refused⟩ := reaches_of_refuses task' inner
    exact ⟨calls + more, task'', m'', starts.reaches.trans reached, refused⟩
termination_by (task.room, task.remaining)
decreasing_by exact starts.decreases

/-- A task from which a refused call is reached ends with the refusal, at the machine of
that call. -/
theorem Refused.refuses {task : Task} (refused : Refused limits task m limit name) :
    Refuses limit name m (task.run limits m) := by
  obtain ⟨found, arity, refused⟩ := refused
  rename_i room ref values c
  have read : closure ref m = .ok c m := by simp [closure, found]
  rw [Task.run, refuses_forget, apply]
  refine refuses_bind.mpr (.inr ⟨c, m, read, ?_⟩)
  rw [callFunction_refused arity refused]
  exact ⟨⟨none, rfl⟩, rfl, rfl⟩

/-- Nothing catches the stop on the way from a call to the task that has led to it. -/
theorem ReachesFrom.refuses {task task' : Task} {m' : Machine} {calls : Nat}
    (reached : ReachesFrom limits task m calls task' m')
    (refuses : Refuses limit name left (task'.run limits m')) :
    Refuses limit name left (task.run limits m) := by
  induction reached with
  | start => exact refuses
  | step _ starts ih => exact ih (starts.refuses refuses)

/-- **A task stops because of a refused call exactly if it comes to one**, and then
with the heap and the output that the machine had there. -/
theorem refuses_iff_reaches {task : Task} :
    Refuses limit name left (task.run limits m) ↔
      ∃ calls task' m', ReachesFrom limits task m calls task' m' ∧
        Refused limits task' m' limit name ∧ m'.heap = left.heap ∧ m'.output = left.output := by
  constructor
  · exact reaches_of_refuses task
  · rintro ⟨calls, task', m', reached, refused, heap, output⟩
    exact (reached.refuses refused.refuses).left_eq heap output

end TernLang.Eval
