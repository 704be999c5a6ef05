import Mathlib.Data.List.Infix
import TernLang.Proofs.Confinement
import TernLang.Proofs.Heap.Frames
import TernLang.Proofs.Scope

/-! # What a run makes of the frames

Evaluating an expression leaves all frames as they are and may add new ones behind
them. Executing a statement in a scope does so too, except that a declaration which
completes declares its name in the frame of that scope (`execute_declares`).

This relies on the place of declarations in a program. A declaration never stands
alone as a branch or as the body of a loop, where it would run in the scope around:
the nodes of the program are `Housed`. All functions that a run makes are made of
these nodes (`MadeOf`).
-/

namespace TernLang

/-! ## Where declarations stand -/

/-- The statements that run in the same scope as the statement they belong to. -/
def Stmt.branches : Stmt → List Stmt
  | .ifElse _ thenBranch elseBranch _ => thenBranch :: elseBranch.toList
  | .whileLoop _ body _ => [body]
  | _ => []

/-- No branch of the node is a declaration. -/
def Node.IsHoused : Node → Prop
  | .expr _ => True
  | .stmt tree => ∀ branch ∈ tree.branches, branch.declared = []

/-- No declaration stands alone in a branch. -/
def Node.Housed (nodes : List Node) : Prop :=
  ∀ node ∈ nodes, node.IsHoused

@[simp] theorem Node.housed_append (nodes others : List Node) :
    Node.Housed (nodes ++ others) ↔ Node.Housed nodes ∧ Node.Housed others := by
  simp [Node.Housed, or_imp, forall_and]

/-- The nodes of a statement are among those of all of them. -/
theorem Stmt.nodes_subset_of_mem {stmts : List Stmt} {nodes : List Node}
    (inside : Stmt.nodesAll stmts ⊆ nodes) {stmt : Stmt} (mem : stmt ∈ stmts) :
    stmt.nodes ⊆ nodes := by
  induction stmts with
  | nil => cases mem
  | cons first rest ih =>
      rw [Stmt.nodesAll, List.append_subset] at inside
      rcases List.mem_cons.mp mem with rfl | later
      · exact inside.1
      · exact ih inside.2 later

/-- The bodies of all functions are made of the nodes. -/
def Heap.MadeOf (h : Heap) (nodes : List Node) : Prop :=
  ∀ c ∈ h.functions, Stmt.nodesAll c.body ⊆ nodes

namespace Eval

/-! ## Computations that keep the frames -/

/-- The frames are still in front, and the functions are made of the nodes. -/
structure Extends (nodes : List Node) (frames : List Frame) (h : Heap) : Prop where
  front : frames <+: h.frames
  made : h.MadeOf nodes

/-- However the computation ends, it leaves the frames that were there. -/
def KeepsFrames {α : Type} (nodes : List Node) (action : Eval α) : Prop :=
  ∀ m : Machine, m.heap.MadeOf nodes → Extends nodes m.heap.frames (machineAfter (action m)).heap

/-- The computation leaves the frames of all scopes older than `s`. -/
def KeepsOlder {α : Type} (nodes : List Node) (s : ScopeRef) (action : Eval α) : Prop :=
  ∀ m : Machine, m.heap.MadeOf nodes →
    Extends nodes (m.heap.frames.take s.id) (machineAfter (action m)).heap

/-- The frames after the names were declared in a scope. -/
def declaredIn (s : ScopeRef) (names : List String) (frames : List Frame) : List Frame :=
  frames.modify s.id (·.declareAll names)

/-- The frames that a statement which declares names in a scope has to leave. -/
def framesAfter (s : ScopeRef) (names : List String) (frames : List Frame) :
    EStateM.Result Stop Machine Completion → List Frame
  | .ok .normal _ => declaredIn s names frames
  | .ok (.returned _ _) _ => frames
  | .error _ _ => frames

/-- The computation declares the names in the scope if it completes normally, and else
nothing. -/
def DeclaresIn (nodes : List Node) (s : ScopeRef) (names : List String) (action : Eval Completion) : Prop :=
  ∀ m : Machine, m.heap.MadeOf nodes →
    Extends nodes (framesAfter s names m.heap.frames (action m)) (machineAfter (action m)).heap

variable {nodes : List Node} {α β : Type} {s : ScopeRef}

/-! ## Rules -/

theorem Extends.trans {frames : List Frame} {h h' : Heap} (first : Extends nodes frames h)
    (second : Extends nodes h.frames h') : Extends nodes frames h' :=
  ⟨first.front.trans second.front, second.made⟩

@[simp] theorem declaredIn_nil (frames : List Frame) : declaredIn s [] frames = frames :=
  List.modify_id s.id frames

theorem framesAfter_nil (frames : List Frame) (result : EStateM.Result Stop Machine Completion) :
    framesAfter s [] frames result = frames := by
  match result with
  | .ok .normal _ => exact declaredIn_nil frames
  | .ok (.returned _ _) _ => rfl
  | .error _ _ => rfl

/-- More frames in front of a statement are more frames behind it. -/
theorem framesAfter_mono {frames more : List Frame} {names : List String} (front : frames <+: more)
    (result : EStateM.Result Stop Machine Completion) :
    framesAfter s names frames result <+: framesAfter s names more result := by
  match result with
  | .ok .normal _ => exact isPrefix_modify front s.id _
  | .ok (.returned _ _) _ => exact front
  | .error _ _ => exact front

/-- Declaring nothing is leaving the frames as they are. -/
theorem declaresIn_nil {action : Eval Completion} :
    DeclaresIn nodes s [] action ↔ KeepsFrames nodes action := by
  unfold DeclaresIn KeepsFrames
  simp only [framesAfter_nil]

/-- An evaluation that touches neither scopes nor functions keeps every frame. -/
theorem keepsFrames_of_same {action : Eval α}
    (scopes : ∀ m, (machineAfter (action m)).heap.scopes = m.heap.scopes)
    (functions : ∀ m, (machineAfter (action m)).heap.functions = m.heap.functions) :
    KeepsFrames nodes action := by
  intro m made
  refine ⟨?_, ?_⟩
  · unfold Heap.frames
    rw [scopes]
  · unfold Heap.MadeOf
    rwa [functions]

theorem keepsFrames_pure (a : α) : KeepsFrames nodes (pure a) :=
  keepsFrames_of_same (fun _ => rfl) (fun _ => rfl)

theorem keepsFrames_fault (cause : Fault) : KeepsFrames nodes (fault cause : Eval α) :=
  keepsFrames_of_same (fun _ => rfl) (fun _ => rfl)

theorem keepsFrames_tooDeep : KeepsFrames nodes (tooDeep : Eval α) :=
  keepsFrames_of_same (fun _ => rfl) (fun _ => rfl)

/-- Frames are kept through a sequence of two evaluations, however the first ends. -/
theorem KeepsFrames.bind {action : Eval α} {rest : α → Eval β} (first : KeepsFrames nodes action)
    (second : ∀ a, KeepsFrames nodes (rest a)) : KeepsFrames nodes (action >>= rest) := by
  intro m made
  have before := first m made
  rw [bind_run]
  cases ran : action m with
  | ok a n =>
      rw [ran] at before
      exact before.trans (second a n before.made)
  | error stop n =>
      rw [ran] at before
      exact before

theorem machineAfter_mapStop (change : Stop → Stop) (action : Eval α) (m : Machine) :
    machineAfter (mapStop change action m) = machineAfter (action m) := by
  unfold mapStop
  cases action m <;> rfl

theorem KeepsFrames.mapStop {action : Eval α} (keeps : KeepsFrames nodes action)
    (change : Stop → Stop) : KeepsFrames nodes (mapStop change action) := by
  intro m made
  rw [machineAfter_mapStop]
  exact keeps m made

theorem DeclaresIn.mapStop {names : List String} {action : Eval Completion}
    (declares : DeclaresIn nodes s names action) (change : Stop → Stop) :
    DeclaresIn nodes s names (mapStop change action) := by
  intro m made
  have kept := declares m made
  unfold Eval.mapStop
  cases ran : action m with
  | ok completion n =>
      rw [ran] at kept
      exact kept
  | error stop n =>
      rw [ran] at kept
      exact kept

/-- What is done in front of a declaration leaves the frames alone. -/
theorem DeclaresIn.bind {names : List String} {action : Eval α} {rest : α → Eval Completion}
    (first : KeepsFrames nodes action) (second : ∀ a, DeclaresIn nodes s names (rest a)) :
    DeclaresIn nodes s names (action >>= rest) := by
  intro m made
  have before := first m made
  rw [bind_run]
  cases ran : action m with
  | ok a n =>
      rw [ran] at before
      have after := second a n before.made
      show Extends nodes (framesAfter s names m.heap.frames (rest a n)) (machineAfter (rest a n)).heap
      refine ⟨(framesAfter_mono before.front (rest a n)).trans after.front, after.made⟩
  | error stop n =>
      rw [ran] at before
      exact before

/-! ## Steps on the heap -/

theorem keepsFrames_inspect (read : Heap → Except Fault α) : KeepsFrames nodes (inspect read) := by
  refine keepsFrames_of_same (fun m => ?_) (fun m => ?_)
  · unfold inspect
    cases read m.heap <;> rfl
  · unfold inspect
    cases read m.heap <;> rfl

theorem keepsFrames_query (read : Heap → Except Stop α) : KeepsFrames nodes (query read) := by
  refine keepsFrames_of_same (fun m => ?_) (fun m => ?_)
  · unfold query
    cases read m.heap <;> rfl
  · unfold query
    cases read m.heap <;> rfl

theorem keepsFrames_settle (outcome : Outcome) : KeepsFrames nodes (settle outcome) := by
  cases outcome with
  | value value => exact keepsFrames_pure value
  | number x =>
      refine keepsFrames_of_same (fun m => ?_) (fun m => ?_)
      · show (m.heap.newNumber x).2.scopes = _
        unfold Heap.newNumber
        split <;> rfl
      · show (m.heap.newNumber x).2.functions = _
        unfold Heap.newNumber
        split <;> rfl

/-- Assigning to a variable changes a value in place. -/
theorem keepsFrames_assign (s : ScopeRef) (name : String) (value : Value) :
    KeepsFrames nodes (assign s name value) := by
  intro m made
  unfold assign
  rw [bind_run]
  cases found : m.heap.owner s name with
  | ok owner =>
      have read : inspect (·.owner s name) m = .ok owner m := by simp [inspect, found]
      rw [read]
      refine ⟨?_, made⟩
      show m.heap.frames <+: (m.heap.define owner name value).frames
      rw [m.heap.frames_assign found]
  | error cause =>
      have read : inspect (·.owner s name) m = .error (.ofFault cause) m := by
        simp [inspect, found]
      rw [read]
      exact ⟨List.prefix_rfl, made⟩

/-- A step of a variable writes a name the frame already has, so no frame changes its
names. -/
theorem keepsFrames_increment (s : ScopeRef) (name : String) (step : Step) :
    KeepsFrames nodes (increment s name step) := by
  refine (keepsFrames_inspect _).bind fun current => ?_
  refine (keepsFrames_inspect _).bind fun outcome => ?_
  refine (keepsFrames_settle outcome).bind fun updated => ?_
  exact (keepsFrames_assign s name updated).bind fun _ => keepsFrames_pure updated

theorem keepsFrames_newList (items : Array Value) : KeepsFrames nodes (newList items) :=
  keepsFrames_of_same (fun _ => rfl) (fun _ => rfl)

theorem keepsFrames_print (room : Nat) (value : Value) : KeepsFrames nodes (print room value) := by
  refine keepsFrames_of_same (fun m => ?_) (fun m => ?_)
  · unfold print
    cases m.heap.render room value <;> rfl
  · unfold print
    cases m.heap.render room value <;> rfl

/-- Built-in functions and methods change lists at most. -/
theorem keepsFrames_callNative (room : Nat) (native : Native) (values : List Value) :
    KeepsFrames nodes (callNative room native values) := by
  unfold callNative
  split
  · exact keepsFrames_fault _
  · split
    · refine (keepsFrames_query _).bind fun (value, change) => ?_
      exact keepsFrames_of_same (fun _ => rfl) (fun _ => rfl)
    · exact keepsFrames_inspect _
    · exact keepsFrames_fault _

/-! ## Control flow -/

theorem keepsFrames_each {γ : Type} {action : γ → Eval β} {inputs : List γ}
    (keeps : ∀ x ∈ inputs, KeepsFrames nodes (action x)) : KeepsFrames nodes (each action inputs) := by
  induction inputs with
  | nil => exact keepsFrames_pure []
  | cons x rest ih =>
      have later := ih fun y mem => keeps y (List.mem_cons_of_mem x mem)
      exact (keeps x List.mem_cons_self).bind fun y => later.bind fun ys => keepsFrames_pure _

theorem keepsFrames_optional {action : Expr → Eval Value} {part : Option Expr}
    (keeps : ∀ e ∈ part, KeepsFrames nodes (action e)) : KeepsFrames nodes (optional action part) := by
  cases part with
  | none => exact keepsFrames_pure none
  | some e => exact (keeps e rfl).bind fun v => keepsFrames_pure (some v)

/-- A loop keeps the frames when its test and its body do. -/
theorem keepsFrames_loop {condition : Eval Value} {body : Eval Completion}
    (test : KeepsFrames nodes condition) (pass : KeepsFrames nodes body) (passes : Nat) :
    KeepsFrames nodes (loop condition body passes) := by
  induction passes with
  | zero => exact keepsFrames_of_same (fun _ => rfl) (fun _ => rfl)
  | succ passes ih =>
      refine test.bind fun value => ?_
      split
      · refine pass.bind fun completion => ?_
        split
        · exact ih
        · exact keepsFrames_pure _
      · exact keepsFrames_pure _

/-- Statements in a scope of their own change no older frame. -/
theorem keepsOlder_sequence {action : Stmt → Eval Completion} {stmts : List Stmt}
    (step : ∀ stmt ∈ stmts, DeclaresIn nodes s stmt.declared (action stmt)) :
    KeepsOlder nodes s (sequence action stmts) := by
  induction stmts with
  | nil =>
      intro m made
      exact ⟨List.take_prefix _ _, made⟩
  | cons stmt rest ih =>
      intro m made
      have first := step stmt List.mem_cons_self m made
      have later := ih fun other mem => step other (List.mem_cons_of_mem stmt mem)
      -- the frame of the scope itself is cut off, so what the statement declares is not seen
      have older : m.heap.frames.take s.id <+:
          (machineAfter (action stmt m)).heap.frames.take s.id := by
        have cut := List.IsPrefix.take first.front s.id
        unfold framesAfter declaredIn at cut
        split at cut
        · rwa [List.take_modify, List.modify_eq_self (List.length_take_le _ _)] at cut
        · exact cut
        · exact cut
      unfold sequence
      rw [bind_run]
      cases ran : action stmt m with
      | ok completion n =>
          rw [ran] at first older
          cases completion with
          | normal =>
              have after := later n first.made
              exact ⟨older.trans after.front, after.made⟩
          | returned value line => exact ⟨older.trans (List.take_prefix _ _), first.made⟩
      | error stop n =>
          rw [ran] at first older
          exact ⟨older.trans (List.take_prefix _ _), first.made⟩

/-- What runs in a new scope keeps all frames that were there. -/
theorem keepsFrames_newScope {bindings : Bindings} {outer : ScopeRef} {body : ScopeRef → Eval α}
    (inside : ∀ inner, KeepsOlder nodes inner (body inner)) :
    KeepsFrames nodes (newScope bindings outer >>= body) := by
  intro m made
  have added := m.heap.frames_newScope ⟨bindings, some outer⟩
  have kept := inside (m.heap.newScope ⟨bindings, some outer⟩).1
    { m with heap := (m.heap.newScope ⟨bindings, some outer⟩).2 } made
  have size : (m.heap.newScope ⟨bindings, some outer⟩).1.id = m.heap.frames.length :=
    m.heap.frames_length.symm
  simp only [added, size, List.take_left] at kept
  exact kept

/-- What a body declares in its own scope is gone from sight once the call is over: only
older frames count. -/
theorem KeepsOlder.insideCall {name : String} {body : Eval Completion}
    (keeps : KeepsOlder nodes s body) : KeepsOlder nodes s (insideCall name body) := by
  intro m made
  have kept := keeps { m with callDepth := m.callDepth + 1 } made
  unfold Eval.insideCall
  cases ran : body { m with callDepth := m.callDepth + 1 } with
  | ok completion n =>
      rw [ran] at kept
      exact kept
  | error stop n =>
      rw [ran] at kept
      exact kept

/-- A call keeps every frame there was, since its body declares into a scope made for it. -/
theorem keepsFrames_callFunction {limits : Limits} {c : Closure} {values : List Value}
    {run : ScopeRef → Eval Completion} (body : ∀ inner, KeepsOlder nodes inner (run inner)) :
    KeepsFrames nodes (callFunction limits c values run) := by
  unfold callFunction
  split
  · exact keepsFrames_fault _
  · intro m made
    show Extends nodes _ (machineAfter ((if limits.maxCallDepth ≤ (m.callDepth : Int) then _ else _ :
      Eval Value) m)).heap
    split
    · exact keepsFrames_fault _ m made
    · exact keepsFrames_newScope (fun inner => (body inner).insideCall) m made

/-! ## Declarations -/

/-- A variable declaration adds exactly its name to the frame it runs in. -/
theorem declaresIn_variable (s : ScopeRef) (name : String) (value : Value) :
    DeclaresIn nodes s [name] (do
      update (·.define s name value)
      pure .normal) := by
  intro m made
  refine ⟨?_, made⟩
  show m.heap.frames.modify s.id (·.declare name) <+: (m.heap.define s name value).frames
  rw [m.heap.frames_define]

/-- A function declaration adds exactly its name, and the function it makes has its body in
the program. -/
theorem declaresIn_function {s : ScopeRef} {name : String} {params : List String}
    {body : List Stmt} (inside : Stmt.nodesAll body ⊆ nodes) :
    DeclaresIn nodes s [name] (do
      let ref ← allocate (·.newFunction ⟨name, params, body, s⟩)
      update (·.define s name (.function ref))
      pure .normal) := by
  intro m made
  refine ⟨?_, ?_⟩
  · show m.heap.frames.modify s.id (·.declare name) <+:
      ((m.heap.newFunction ⟨name, params, body, s⟩).2.define s name _).frames
    rw [Heap.frames_define]
    exact List.prefix_rfl
  · intro c mem
    rcases Array.mem_push.mp mem with old | rfl
    · exact made c old
    · exact inside

/-! ## Evaluation -/

mutual

/-- **Evaluating an expression keeps the frames.** -/
theorem evaluate_keepsFrames (housed : Node.Housed nodes) (limits : Limits) :
    ∀ (room : Nat) (s : ScopeRef) (e : Expr), KeepsFrames nodes (evaluate limits room s e)
  | 0, _, _ | 1, _, _ => keepsFrames_tooDeep
  | room + 2, s, e => by
      refine KeepsFrames.mapStop ?_ _
      have inner := evaluate_keepsFrames housed limits room s
      have all := evaluateAll_keepsFrames housed limits room s
      cases e with
      | literal value line => exact keepsFrames_pure _
      | var name line => exact keepsFrames_inspect _
      | grouping e line => exact inner e
      | assign name value line =>
          refine (inner value).bind fun result => ?_
          exact (keepsFrames_assign s name result).bind fun _ => keepsFrames_pure result
      | increment name step line => exact keepsFrames_increment s name step
      | logical left op right line =>
          cases op with
          | or =>
              refine (inner left).bind fun value => ?_
              split
              · exact keepsFrames_pure value
              · exact inner right
          | and =>
              refine (inner left).bind fun value => ?_
              split
              · exact inner right
              · exact keepsFrames_pure value
      | binary left op right line =>
          refine (inner left).bind fun a => (inner right).bind fun b => ?_
          exact (keepsFrames_query _).bind keepsFrames_settle
      | unary op right line =>
          cases op with
          | negate =>
              refine (inner right).bind fun value => ?_
              exact (keepsFrames_inspect _).bind keepsFrames_settle
          | not => exact (inner right).bind fun value => keepsFrames_pure _
      | call callee arguments line =>
          refine (inner callee).bind fun f => (all arguments).bind fun values => ?_
          exact apply_keepsFrames housed limits room f values
      | member target name line =>
          refine (inner target).bind fun value => (keepsFrames_inspect _).bind fun found => ?_
          exact keepsFrames_of_same (fun _ => rfl) (fun _ => rfl)
      | list elements line =>
          exact (all elements).bind fun values => keepsFrames_newList _
      | index target position line =>
          refine (inner target).bind fun list => (inner position).bind fun i => ?_
          exact keepsFrames_inspect _
      | slice target first last line =>
          refine (inner target).bind fun list => ?_
          refine (keepsFrames_optional fun e _ => inner e).bind fun low => ?_
          refine (keepsFrames_optional fun e _ => inner e).bind fun high => ?_
          exact (keepsFrames_inspect _).bind keepsFrames_newList

theorem evaluateAll_keepsFrames (housed : Node.Housed nodes) (limits : Limits) :
    ∀ (room : Nat) (s : ScopeRef) (all : List Expr),
      KeepsFrames nodes (evaluateAll limits room s all)
  | 0, _, _ => keepsFrames_tooDeep
  | room + 1, s, _ => keepsFrames_each fun e _ => evaluate_keepsFrames housed limits room s e

/-- **A call keeps the frames**: the body of a function runs in a new scope. -/
theorem apply_keepsFrames (housed : Node.Housed nodes) (limits : Limits) :
    ∀ (room : Nat) (callee : Value) (values : List Value),
      KeepsFrames nodes (apply limits room callee values)
  | 0, _, _ | 1, _, _ | 2, _, _ => keepsFrames_tooDeep
  | room + 3, callee, values => by
      unfold apply
      cases callee with
      | function ref =>
          intro m made
          show Extends nodes _ (machineAfter ((closure ref >>= _) m)).heap
          rw [bind_run]
          cases found : m.heap.functions[ref.id]? with
          | none =>
              have read : closure ref m = .error (.ofFault (.notCallable .function)) m := by
                simp [closure, found]
              rw [read]
              exact ⟨List.prefix_rfl, made⟩
          | some c =>
              have read : closure ref m = .ok c m := by simp [closure, found]
              rw [read]
              -- the body of a function on the heap consists of nodes of the program
              have inside := made c (Array.mem_of_getElem? found)
              refine keepsFrames_callFunction (fun inner => ?_) m made
              exact keepsOlder_sequence fun stmt mem =>
                execute_declares housed limits room inner (Stmt.nodes_subset_of_mem inside mem)
      | native native => exact keepsFrames_callNative room native values
      | _ => exact keepsFrames_fault _

/-- **Executing a statement declares what the statement declares**, in its own scope
and if it completes. -/
theorem execute_declares (housed : Node.Housed nodes) (limits : Limits) :
    ∀ (room : Nat) (s : ScopeRef) {stmt : Stmt}, stmt.nodes ⊆ nodes →
      DeclaresIn nodes s stmt.declared (execute limits room s stmt)
  | 0, _, _, _ | 1, _, _, _ => fun _ made => ⟨List.prefix_rfl, made⟩
  | room + 2, s, stmt, inside => by
      refine DeclaresIn.mapStop ?_ _
      have evaluates := evaluate_keepsFrames housed limits room s
      cases stmt with
      | expression e line =>
          exact declaresIn_nil.mpr ((evaluates e).bind fun _ => keepsFrames_pure _)
      | print e line =>
          refine declaresIn_nil.mpr ((evaluates e).bind fun value => ?_)
          exact (keepsFrames_print room value).bind fun _ => keepsFrames_pure _
      | varDecl name initial line =>
          refine DeclaresIn.bind (keepsFrames_optional fun e _ => evaluates e) fun value => ?_
          exact declaresIn_variable s name _
      | block body line =>
          rw [Stmt.nodes, List.cons_subset] at inside
          exact declaresIn_nil.mpr (executeBlock_keepsFrames housed limits room s inside.2)
      | ifElse condition thenBranch elseBranch line =>
          simp only [Stmt.nodes, List.cons_subset, List.append_subset] at inside
          obtain ⟨here, -, inThen, inElse⟩ := inside
          -- a branch declares no name of its own
          have alone := housed _ here
          refine declaresIn_nil.mpr ((evaluates condition).bind fun value => ?_)
          split
          · have runs := execute_declares housed limits room s inThen
            rw [alone thenBranch List.mem_cons_self] at runs
            exact declaresIn_nil.mp runs
          · cases elseBranch with
            | none => exact keepsFrames_pure _
            | some branch =>
                have runs := execute_declares housed limits room s inElse
                rw [alone branch (by simp [Stmt.branches])] at runs
                exact declaresIn_nil.mp runs
      | whileLoop condition body line =>
          simp only [Stmt.nodes, List.cons_subset, List.append_subset] at inside
          obtain ⟨here, -, inBody⟩ := inside
          have runs := execute_declares housed limits room s inBody
          -- the body of a loop declares no name of its own either
          rw [housed _ here body (List.mem_singleton_self body)] at runs
          refine declaresIn_nil.mpr (keepsFrames_loop (evaluates condition) ?_ limits.passes)
          exact declaresIn_nil.mp runs
      | returnValue value line =>
          refine declaresIn_nil.mpr ((keepsFrames_optional fun e _ => evaluates e).bind ?_)
          exact fun _ => keepsFrames_pure _
      | funDecl name params body line =>
          rw [Stmt.nodes, List.cons_subset] at inside
          exact declaresIn_function inside.2

/-- The statements of a block may declare into the scope of the block only; every older
frame is kept. -/
theorem executeBlock_keepsFrames (housed : Node.Housed nodes) (limits : Limits) :
    ∀ (room : Nat) (s : ScopeRef) {body : List Stmt}, Stmt.nodesAll body ⊆ nodes →
      KeepsFrames nodes (executeBlock limits room s body)
  | 0, _, _, _ => keepsFrames_tooDeep
  | room + 1, _, _, inside => keepsFrames_newScope fun inner =>
      keepsOlder_sequence fun _ mem =>
        execute_declares housed limits room inner (Stmt.nodes_subset_of_mem inside mem)

end

end Eval

end TernLang
