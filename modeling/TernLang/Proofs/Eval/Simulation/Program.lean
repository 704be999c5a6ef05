import TernLang.Proofs.Eval.Simulation

/-! # Two runs of one program agree

The rules of `Agrees` put together along the definition of the interpreter: a
list of expressions, a sequence and a loop agree if their parts do, and then, by
induction on the room of the first run, **every expression and every statement
agrees with its renumbering** (`evaluate_agrees`, `execute_agrees`), and so does
a whole program (`executeProgram_agrees`).
-/

namespace TernLang

namespace Eval

variable {S : Comparison} {α : Type}

/-! ## Several parts in order -/

theorem each_agrees {β : Type} {action action' : α → Eval β} {change : α → α}
    (agree : ∀ x, Agrees S id (action x) (action' (change x))) (xs : List α) :
    Agrees S id (each action xs) (each action' (xs.map change)) := by
  induction xs with
  | nil => exact .pure []
  | cons x rest ih =>
      refine (agree x).bind fun y => ?_
      exact ih.bind fun ys => .pure (y :: ys)

theorem optional_agrees {action action' : α → Eval Value} {change : α → α}
    (agree : ∀ x, Agrees S id (action x) (action' (change x))) (x : Option α) :
    Agrees S id (optional action x) (optional action' (x.map change)) := by
  cases x with
  | none => exact .pure none
  | some x => exact (agree x).bind fun value => .pure (some value)

/-- What follows a completion: the rest if it is normal, nothing otherwise. -/
theorem completed_agrees {p q : Eval Completion} {onNormal onNormal' : Eval Completion}
    (first : Agrees S (Completion.mapLines S.lines) p q)
    (rest : Agrees S (Completion.mapLines S.lines) onNormal onNormal') :
    Agrees S (Completion.mapLines S.lines)
      (p >>= fun completion =>
        match completion with
        | .normal => onNormal
        | completion => pure completion)
      (q >>= fun completion =>
        match completion with
        | .normal => onNormal'
        | completion => pure completion) := by
  refine first.bind fun completion => ?_
  cases completion with
  | normal => exact rest
  | returned value line => exact Agrees.pure (Completion.returned value line)

theorem sequence_agrees {action action' : Stmt → Eval Completion}
    (agree : ∀ stmt, Agrees S (Completion.mapLines S.lines) (action stmt)
      (action' (stmt.mapLines S.lines))) (stmts : List Stmt) :
    Agrees S (Completion.mapLines S.lines) (sequence action stmts)
      (sequence action' (stmts.map (Stmt.mapLines S.lines))) := by
  induction stmts with
  | nil => exact Agrees.pure Completion.normal
  | cons stmt rest ih => exact completed_agrees (agree stmt) ih

/-- A loop: both runs have the same passes. -/
theorem loop_agrees {condition condition' : Eval Value} {body body' : Eval Completion}
    (test : Agrees S id condition condition')
    (pass : Agrees S (Completion.mapLines S.lines) body body') (passes : Nat) :
    Agrees S (Completion.mapLines S.lines) (loop condition body passes)
      (loop condition' body' passes) := by
  induction passes with
  | zero => exact fun _ => .inr rfl
  | succ passes ih =>
      refine test.bind fun value => ?_
      exact .ite (completed_agrees pass ih) (Agrees.pure Completion.normal)

/-! ## Expressions and statements -/

mutual

/-- **Evaluating an expression agrees** with evaluating its renumbering. -/
theorem evaluate_agrees (S : Comparison) (scope : ScopeRef) :
    ∀ (room : Nat) (expr : Expr), Agrees S id (evaluate S.limits room scope expr)
      (evaluate S.limits' (S.extra + room) scope (expr.mapLines S.lines))
  | 0, _ | 1, _ => tooDeep_agrees fun same => by rw [same.2]; rfl
  | room + 2, expr => by
      have inner := evaluate_agrees S scope room
      have all := evaluateAll_agrees S scope room
      show Agrees S id (evaluate S.limits (room + 2) scope expr)
        (evaluate S.limits' (S.extra + room + 2) scope (expr.mapLines S.lines))
      unfold evaluate
      refine Agrees.mapStop ?_ (fun stop => ?_) (overflows_located expr.line)
      -- the line that is added to a stop is mapped like any other
      case refine_2 =>
        rw [Expr.mapLines_line]
        exact stop.located_mapLines S.lines expr.line
      cases expr with
      | literal value line => exact .pure _
      | var name line =>
          exact inspect_agrees fun h => Heap.lookup_congr (h.mapLines_scopes S.lines) scope name
      | grouping expr line => exact inner expr
      | assign name value line =>
          refine (inner value).bind fun result => ?_
          exact (assign_agrees scope name result).bind fun _ => .pure _
      | increment name step line => exact increment_agrees scope name step
      | logical left op right line =>
          cases op with
          | or => exact (inner left).bind fun value => .ite (.pure value) (inner right)
          | and => exact (inner left).bind fun value => .ite (inner right) (.pure value)
      | binary left op right line =>
          refine (inner left).bind fun a => (inner right).bind fun b => ?_
          exact (binary_agrees room op a b).bind fun outcome => settle_agrees outcome
      | unary op right line =>
          cases op with
          | negate =>
              refine (inner right).bind fun value => ?_
              refine (inspect_const_agrees (negateValue value)).bind fun outcome => ?_
              exact settle_agrees outcome
          | not => exact (inner right).bind fun value => .pure _
      | call callee arguments line =>
          refine (inner callee).bind fun f => ?_
          rw [Expr.mapLinesAll_eq_map]
          exact (all arguments).bind fun values => apply_agrees S room f values
      | member target name line =>
          refine (inner target).bind fun value => ?_
          refine (inspect_const_agrees (resolveMethod value name)).bind fun found => ?_
          exact allocate_agrees fun _ => rfl
      | list elements line =>
          simp only [Expr.mapLines, Expr.mapLinesAll_eq_map]
          exact (all elements).bind fun values => newList_agrees _
      | index target position line =>
          refine (inner target).bind fun list => (inner position).bind fun index => ?_
          exact inspect_agrees fun h => Heap.getItem_congr (h.mapLines_lists S.lines) list index
      | slice target first last line =>
          simp only [Expr.mapLines, Expr.mapLinesOption_eq_map]
          refine (inner target).bind fun list => ?_
          refine (optional_agrees inner first).bind fun low => ?_
          refine (optional_agrees inner last).bind fun high => ?_
          refine Agrees.bind (inspect_agrees fun h => ?_) fun items => newList_agrees items
          exact Heap.slice_congr (h.mapLines_lists S.lines) list low high

theorem evaluateAll_agrees (S : Comparison) (scope : ScopeRef) :
    ∀ (room : Nat) (exprs : List Expr), Agrees S id (evaluateAll S.limits room scope exprs)
      (evaluateAll S.limits' (S.extra + room) scope (exprs.map (Expr.mapLines S.lines)))
  | 0, _ => tooDeep_agrees fun same => by rw [same.2]; rfl
  | room + 1, exprs => each_agrees (evaluate_agrees S scope room) exprs

/-- A call: the body of a function is in the heap, renumbered there in the second
run. -/
theorem apply_agrees (S : Comparison) :
    ∀ (room : Nat) (callee : Value) (arguments : List Value),
      Agrees S id (apply S.limits room callee arguments)
        (apply S.limits' (S.extra + room) callee arguments)
  | 0, _, _ | 1, _, _ | 2, _, _ => tooDeep_agrees fun same => by rw [same.2]; rfl
  | room + 3, callee, arguments => by
      show Agrees S id (apply S.limits (room + 3) callee arguments)
        (apply S.limits' (S.extra + room + 3) callee arguments)
      unfold apply
      cases callee with
      | function ref =>
          refine (closure_agrees ref).bind fun closure => ?_
          refine callFunction_agrees closure arguments fun scope => ?_
          exact sequence_agrees (execute_agrees S scope room) closure.body
      | native native => exact callNative_agrees room native arguments
      | _ => exact fault_agrees _

/-- **Executing a statement agrees** with executing its renumbering. -/
theorem execute_agrees (S : Comparison) (scope : ScopeRef) :
    ∀ (room : Nat) (stmt : Stmt),
      Agrees S (Completion.mapLines S.lines) (execute S.limits room scope stmt)
        (execute S.limits' (S.extra + room) scope (stmt.mapLines S.lines))
  | 0, _ | 1, _ => tooDeep_agrees fun same => by rw [same.2]; rfl
  | room + 2, stmt => by
      have inner := evaluate_agrees S scope room
      have part := execute_agrees S scope room
      show Agrees S _ (execute S.limits (room + 2) scope stmt)
        (execute S.limits' (S.extra + room + 2) scope (stmt.mapLines S.lines))
      unfold execute
      refine Agrees.mapStop ?_ (fun stop => ?_) (overflows_located stmt.line)
      case refine_2 =>
        rw [Stmt.mapLines_line]
        exact stop.located_mapLines S.lines stmt.line
      cases stmt with
      | expression expr line => exact (inner expr).bind fun _ => Agrees.pure Completion.normal
      | print expr line =>
          refine (inner expr).bind fun value => ?_
          exact (print_agrees room value).bind fun _ => Agrees.pure Completion.normal
      | varDecl name initial line =>
          refine (optional_agrees inner initial).bind fun value => ?_
          refine Agrees.bind (update_agrees fun h => ?_) fun _ => Agrees.pure Completion.normal
          exact h.define_mapLines S.lines scope name _
      | block body line =>
          simp only [Stmt.mapLines, Stmt.mapLinesAll_eq_map]
          exact executeBlock_agrees S scope room body
      | ifElse condition thenBranch elseBranch line =>
          refine (inner condition).bind fun value => .ite (part thenBranch) ?_
          cases elseBranch with
          | none => exact Agrees.pure Completion.normal
          | some branch => exact part branch
      | whileLoop condition body line =>
          simp only [Stmt.mapLines, S.passes]
          exact loop_agrees (inner condition) (part body) S.limits.passes
      | returnValue value line =>
          refine (optional_agrees inner value).bind fun result => ?_
          exact Agrees.pure (Completion.returned (result.getD .null) line)
      | funDecl name params body line =>
          -- the body goes into the heap, which the second run has renumbered
          have create : Agrees S id (allocate (·.newFunction ⟨name, params, body, scope⟩))
              (allocate (·.newFunction
                ⟨name, params, Stmt.mapLinesAll S.lines body, scope⟩)) := by
            rw [Stmt.mapLinesAll_eq_map]
            exact allocate_agrees fun h => h.newFunction_mapLines S.lines ⟨name, params, body, scope⟩
          refine create.bind fun ref => ?_
          refine Agrees.bind (update_agrees fun h => ?_) fun _ => Agrees.pure Completion.normal
          exact h.define_mapLines S.lines scope name _

theorem executeBlock_agrees (S : Comparison) (scope : ScopeRef) :
    ∀ (room : Nat) (body : List Stmt),
      Agrees S (Completion.mapLines S.lines) (executeBlock S.limits room scope body)
        (executeBlock S.limits' (S.extra + room) scope (body.map (Stmt.mapLines S.lines)))
  | 0, _ => tooDeep_agrees fun same => by rw [same.2]; rfl
  | room + 1, body =>
      (newScope_agrees [] scope).bind fun inner =>
        sequence_agrees (execute_agrees S inner room) body

end

/-! ## Programs -/

/-- **Executing a program agrees** with executing its renumbering. -/
theorem executeProgram_agrees (S : Comparison) (room : Nat) (globals : ScopeRef)
    (stmts : List Stmt) :
    Agrees S id (executeProgram S.limits room globals stmts)
      (executeProgram S.limits' (S.extra + room) globals (stmts.map (Stmt.mapLines S.lines))) := by
  induction stmts with
  | nil => exact .pure ()
  | cons stmt rest ih =>
      have first := (execute_agrees S globals room stmt).mapStop
        (Stop.atTopLevel_mapLines S.lines stmt.line) (overflows_atTopLevel stmt.line)
      rw [List.map_cons]
      unfold executeProgram
      rw [Stmt.mapLines_line]
      refine first.bind fun completion => ?_
      cases completion with
      | normal => exact ih
      | returned value line => exact fun _ => .inr rfl

end Eval

end TernLang
