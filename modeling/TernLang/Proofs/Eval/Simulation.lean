import TernLang.Proofs.Eval.Bind
import TernLang.Proofs.Eval.Lines

/-! # Comparing two runs

A `Comparison` sets two runs of one program side by side: the second one has the
program with its lines renumbered, and it may be given more nesting and more
calls. `Agrees` is the statement that two computations do the same on a machine
and on its renumbering. It has **one rule for each way to build a computation**;
the module below this one applies them along the definition of the interpreter.

A lenient comparison allows the first run to stop because nesting or calls went
too deep (`Stop.Overflows`) where the second does not. Such a stop is never
caught, so the first run then reports it.
-/

namespace TernLang

/-- The stop is because nesting or calls went too deep. -/
def Stop.Overflows : Stop → Prop
  | .fault cause _ => cause.kind = .stackOverflow
  | .tooDeep => True
  | .outOfPasses => False

namespace Eval

/-- Two runs side by side: how the second one numbers the lines of the first,
and the bounds of both. Only a `lenient` comparison may give the second run
more. -/
structure Comparison where
  lines : Nat → Nat
  lenient : Prop
  limits : Limits
  limits' : Limits
  extra : Nat
  calls : limits.maxCallDepth ≤ limits'.maxCallDepth
  passes : limits'.passes = limits.passes
  strict : lenient ∨ (limits' = limits ∧ extra = 0)

/-- The result of a computation that went too deep. -/
def Result.Overflows {α : Type} : EStateM.Result Stop Machine α → Prop
  | .ok _ _ => False
  | .error stop _ => stop.Overflows

/-- The result that the second run is to have. -/
def Result.mapLines {α : Type} (f : Nat → Nat) (change : α → α) :
    EStateM.Result Stop Machine α → EStateM.Result Stop Machine α
  | .ok a machine => .ok (change a) (machine.mapLines f)
  | .error stop machine => .error (stop.mapLines f) (machine.mapLines f)

/-- On a machine and its renumbering the two computations do the same, with
results that `change` takes to each other, unless the first one goes too deep in
a lenient comparison. -/
def Agrees (S : Comparison) {α : Type} (change : α → α) (p q : Eval α) : Prop :=
  ∀ machine : Machine, (S.lenient ∧ Result.Overflows (p machine)) ∨
    q (machine.mapLines S.lines) = Result.mapLines S.lines change (p machine)

variable {S : Comparison} {α β : Type} {change : α → α} {after : β → β}

/-! ## Rules -/

theorem Agrees.pure (a : α) : Agrees S change (Pure.pure a) (Pure.pure (change a)) :=
  fun _ => .inr rfl

theorem Agrees.bind {p q : Eval α} {f g : α → Eval β} (first : Agrees S change p q)
    (second : ∀ a, Agrees S after (f a) (g (change a))) :
    Agrees S after (p >>= f) (q >>= g) := by
  intro machine
  cases left : p machine with
  | ok a machine' =>
      rcases first machine with ⟨lenient, overflows⟩ | same
      · rw [left] at overflows
        exact overflows.elim
      · rw [left] at same
        rw [bind_run_ok left, bind_run_ok same]
        exact second a machine'
  | error stop machine' =>
      rw [bind_run_error left]
      rcases first machine with ⟨lenient, overflows⟩ | same
      · rw [left] at overflows
        exact .inl ⟨lenient, overflows⟩
      · rw [left] at same
        rw [bind_run_error same]
        exact .inr rfl

theorem Agrees.ite {p q p' q' : Eval α} {condition : Prop} [Decidable condition]
    (yes : Agrees S change p q) (no : Agrees S change p' q') :
    Agrees S change (if condition then p else p') (if condition then q else q') := by
  by_cases holds : condition
  · rwa [if_pos holds, if_pos holds]
  · rwa [if_neg holds, if_neg holds]

/-- Where the first run goes too deep at once, a strict comparison has the same
second run. -/
theorem tooDeep_agrees {q : Eval α} (strict : S.limits' = S.limits ∧ S.extra = 0 → q = tooDeep) :
    Agrees S change tooDeep q := by
  intro machine
  rcases S.strict with lenient | same
  · exact .inl ⟨lenient, trivial⟩
  · rw [strict same]
    exact .inr rfl

/-- Locating a fault commutes with the renumbering and hides no overflow. -/
theorem Agrees.mapStop {p q : Eval α} {locate locate' : Stop → Stop}
    (agrees : Agrees S change p q)
    (commutes : ∀ stop, locate' (stop.mapLines S.lines) = (locate stop).mapLines S.lines)
    (keeps : ∀ stop : Stop, stop.Overflows → (locate stop).Overflows) :
    Agrees S change (mapStop locate p) (mapStop locate' q) := by
  intro machine
  unfold Eval.mapStop
  rcases agrees machine with ⟨lenient, overflows⟩ | same
  · refine .inl ⟨lenient, ?_⟩
    cases left : p machine with
    | ok a machine' =>
        rw [left] at overflows
        exact overflows.elim
    | error stop machine' =>
        rw [left] at overflows
        exact keeps stop overflows
  · refine .inr ?_
    rw [same]
    cases p machine with
    | ok a machine' => rfl
    | error stop machine' =>
        simp only [Result.mapLines]
        rw [commutes]

/-- A stop keeps overflowing the stack when it is given a line. -/
theorem overflows_located (line : Nat) (stop : Stop) (overflows : stop.Overflows) :
    (stop.located line).Overflows := by
  cases stop with
  | fault cause place => cases place <;> exact overflows
  | tooDeep => trivial
  | outOfPasses => exact overflows

theorem overflows_atTopLevel (line : Nat) (stop : Stop) (overflows : stop.Overflows) :
    (stop.atTopLevel line).Overflows := by
  cases stop with
  | fault cause place => exact overflows
  | tooDeep => rfl
  | outOfPasses => exact overflows

theorem overflows_inCall (name : String) (stop : Stop) (overflows : stop.Overflows) :
    (stop.inCall name).Overflows := by
  cases stop with
  | fault cause place => exact overflows
  | tooDeep => rfl
  | outOfPasses => exact overflows

/-! ## Steps on the heap -/

theorem fault_agrees (cause : Fault) : Agrees S change (fault cause) (fault cause) :=
  fun _ => .inr rfl

/-- Readings of the heap that do not see lines agree. -/
theorem inspect_agrees {read read' : Heap → Except Fault α}
    (same : ∀ h, read' (h.mapLines S.lines) = read h) :
    Agrees S id (inspect read) (inspect read') := by
  intro machine
  have found : read' (machine.mapLines S.lines).heap = read machine.heap := same machine.heap
  refine .inr ?_
  unfold inspect
  rw [found]
  cases read machine.heap <;> rfl

theorem inspect_const_agrees (result : Except Fault α) :
    Agrees S id (inspect fun _ => result) (inspect fun _ => result) :=
  inspect_agrees fun _ => rfl

/-- A reading that takes room: the second run has more of it. -/
theorem query_agrees {read read' : Heap → Except Stop α}
    (same : ∀ h, (S.lenient ∧ read h = .error .tooDeep) ∨
      read' (h.mapLines S.lines) = (read h).mapError (Stop.mapLines S.lines)) :
    Agrees S id (query read) (query read') := by
  intro machine
  rcases same machine.heap with ⟨lenient, tooDeep⟩ | same
  · refine .inl ⟨lenient, ?_⟩
    unfold query
    rw [tooDeep]
    exact trivial
  · have found : read' (machine.mapLines S.lines).heap =
        (read machine.heap).mapError (Stop.mapLines S.lines) := same
    refine .inr ?_
    unfold query
    rw [found]
    cases read machine.heap <;> rfl

/-- Changes of the heap that commute with renumbering agree. -/
theorem update_agrees {step step' : Heap → Heap}
    (commutes : ∀ h, step' (h.mapLines S.lines) = (step h).mapLines S.lines) :
    Agrees S id (update step) (update step') := by
  intro machine
  refine .inr ?_
  show EStateM.Result.ok () _ = EStateM.Result.ok () _
  simp only [Machine.mapLines, commutes]

/-- Allocations that commute with renumbering agree, and give the same identity. -/
theorem allocate_agrees {create create' : Heap → α × Heap}
    (commutes : ∀ h, create' (h.mapLines S.lines) =
      ((create h).1, (create h).2.mapLines S.lines)) :
    Agrees S id (allocate create) (allocate create') := by
  intro machine
  refine .inr ?_
  show EStateM.Result.ok (create' (machine.heap.mapLines S.lines)).1
    { machine.mapLines S.lines with heap := (create' (machine.heap.mapLines S.lines)).2 } = _
  rw [commutes]
  rfl

theorem settle_agrees (outcome : Outcome) : Agrees S id (settle outcome) (settle outcome) := by
  cases outcome with
  | value value => exact .pure value
  | number x =>
      show Agrees S id (allocate (·.newNumber x)) (allocate (·.newNumber x))
      exact allocate_agrees fun h => h.newNumber_mapLines S.lines x

theorem assign_agrees (scope : ScopeRef) (name : String) (value : Value) :
    Agrees S id (assign scope name value) (assign scope name value) := by
  refine (inspect_agrees fun h => Heap.owner_congr (h.mapLines_scopes S.lines) scope name).bind
    fun owner => ?_
  exact update_agrees fun h => h.define_mapLines S.lines owner name value

theorem increment_agrees (scope : ScopeRef) (name : String) (step : Step) :
    Agrees S id (increment scope name step) (increment scope name step) := by
  refine (inspect_agrees fun h => Heap.lookup_congr (h.mapLines_scopes S.lines) scope name).bind
    fun current => ?_
  refine (inspect_const_agrees (stepValue name step current)).bind fun outcome => ?_
  refine (settle_agrees outcome).bind fun updated => ?_
  exact (assign_agrees scope name updated).bind fun _ => .pure updated

theorem newList_agrees (items : Array Value) : Agrees S id (newList items) (newList items) :=
  (allocate_agrees fun _ => rfl).bind fun _ => .pure _

theorem newScope_agrees (bindings : Bindings) (outer : ScopeRef) :
    Agrees S id (newScope bindings outer) (newScope bindings outer) :=
  allocate_agrees fun _ => rfl

/-- The same text is printed on both sides, unless the smaller stack is too small for it. -/
theorem print_agrees (room : Nat) (value : Value) :
    Agrees S id (print room value) (print (S.extra + room) value) := by
  intro machine
  have same : (machine.mapLines S.lines).heap.render (S.extra + room) value =
      machine.heap.render (S.extra + room) value :=
    machine.heap.render_mapLines S.lines (S.extra + room) value
  unfold print
  rw [same]
  cases shown : machine.heap.render room value with
  | some text =>
      rw [Heap.render_extra_room S.extra shown]
      exact .inr rfl
  | none =>
      rcases S.strict with lenient | ⟨-, none⟩
      · exact .inl ⟨lenient, trivial⟩
      · rw [none, Nat.zero_add, shown]
        exact .inr rfl

/-! ## Readings that take room -/

/-- A reading whose stops have no line and that, with more room, gives the same
answer, if it gave one. -/
theorem query_room_agrees (read : Nat → Heap → Except Stop α) (room : Nat)
    (same : ∀ room h, read room (h.mapLines S.lines) = read room h)
    (lineless : ∀ room h, (read room h).mapError (Stop.mapLines S.lines) = read room h)
    (more : ∀ h, read room h = .error .tooDeep ∨ read (S.extra + room) h = read room h) :
    Agrees S id (query (read room)) (query (read (S.extra + room))) := by
  refine query_agrees fun h => ?_
  rw [same, lineless]
  rcases S.strict with lenient | ⟨-, none⟩
  · exact (more h).imp_left fun tooDeep => ⟨lenient, tooDeep⟩
  · exact .inr (by rw [none, Nat.zero_add])

/-- An operator agrees with itself on a larger stack: only comparisons of nested values use
it. -/
theorem binary_agrees (room : Nat) (op : BinaryOp) (left right : Value) :
    Agrees S id (query (·.binary room op left right))
      (query (·.binary (S.extra + room) op left right)) :=
  query_room_agrees (fun room h => h.binary room op left right) room
    (fun room h => Heap.binary_congr (h.mapLines_lists S.lines) room op left right)
    (fun room h => h.binary_lineless S.lines room op left right)
    (fun h => h.binary_extra_room S.extra room op left right)

/-- A method agrees with itself on a larger stack: only index, which compares, uses it. -/
theorem methodEffect_agrees (room : Nat) (method : ListMethod) (ref : ListRef)
    (arguments : List Value) :
    Agrees S id (query (·.methodEffect room method ref arguments))
      (query (·.methodEffect (S.extra + room) method ref arguments)) :=
  query_room_agrees (fun room h => h.methodEffect room method ref arguments) room
    (fun room h => Heap.methodEffect_congr (h.mapLines_lists S.lines) room method ref arguments)
    (fun room h => h.methodEffect_lineless S.lines room method ref arguments)
    (fun h => h.methodEffect_extra_room S.extra room method ref arguments)

/-! ## Calls and control flow -/

theorem callNative_agrees (room : Nat) (native : Native) (arguments : List Value) :
    Agrees S id (callNative room native arguments)
      (callNative (S.extra + room) native arguments) := by
  unfold callNative
  refine .ite (fault_agrees _) ?_
  split
  · rename_i receiver _
    refine (methodEffect_agrees room _ _ _).bind fun (value, change) => ?_
    have changed : Agrees S id (update (·.modifyItems receiver change))
        (update (·.modifyItems receiver change)) :=
      update_agrees fun _ => rfl
    exact changed.bind fun _ => .pure value
  · exact inspect_const_agrees _
  · exact fault_agrees _

/-- Bodies that agree make calls that agree, since the depth counter is the same on both
sides. -/
theorem insideCall_agrees {p q : Eval Completion} (name : String)
    (body : Agrees S (Completion.mapLines S.lines) p q) :
    Agrees S id (insideCall name p) (insideCall name q) := by
  intro machine
  unfold insideCall
  rcases body { machine with callDepth := machine.callDepth + 1 } with ⟨lenient, overflows⟩ | same
  · refine .inl ⟨lenient, ?_⟩
    cases left : p { machine with callDepth := machine.callDepth + 1 } with
    | ok completion machine' =>
        rw [left] at overflows
        exact overflows.elim
    | error stop machine' =>
        rw [left] at overflows
        exact overflows_inCall name stop overflows
  · refine .inr ?_
    -- the number of calls is not renumbered
    have entered : { machine.mapLines S.lines with
        callDepth := (machine.mapLines S.lines).callDepth + 1 } =
        Machine.mapLines S.lines { machine with callDepth := machine.callDepth + 1 } := rfl
    rw [entered, same]
    cases p { machine with callDepth := machine.callDepth + 1 } with
    | ok completion machine' =>
        simp only [Result.mapLines, Completion.mapLines_value]
        rfl
    | error stop machine' =>
        simp only [Result.mapLines, Stop.inCall_mapLines]
        rfl

/-- The function found on one side is the renumbered function of the other. -/
theorem closure_agrees (ref : FunctionRef) :
    Agrees S (Closure.mapLines S.lines) (closure ref) (closure ref) := by
  intro machine
  refine .inr ?_
  have read : (machine.mapLines S.lines).heap.functions[ref.id]? =
      (machine.heap.functions[ref.id]?).map (Closure.mapLines S.lines) := by
    simp [Machine.mapLines, Heap.mapLines]
  unfold closure
  rw [read]
  cases machine.heap.functions[ref.id]? <;> rfl

/-- A call: the first run may have fewer calls left. -/
theorem callFunction_agrees (closure : Closure) (arguments : List Value)
    {run run' : ScopeRef → Eval Completion}
    (body : ∀ scope, Agrees S (Completion.mapLines S.lines) (run scope) (run' scope)) :
    Agrees S id (callFunction S.limits closure arguments run)
      (callFunction S.limits' (closure.mapLines S.lines) arguments run') := by
  refine .ite (fault_agrees _) ?_
  intro machine
  have called : Agrees S id
      (newScope (Bindings.putAll [] (closure.params.zip arguments)) closure.scope >>= fun scope =>
        insideCall closure.name (run scope))
      (newScope (Bindings.putAll [] (closure.params.zip arguments)) closure.scope >>= fun scope =>
        insideCall closure.name (run' scope)) :=
    (newScope_agrees _ _).bind fun scope => insideCall_agrees closure.name (body scope)
  show (S.lenient ∧ Result.Overflows ((if S.limits.maxCallDepth ≤ (machine.callDepth : Int) then
      fault (.callsTooDeep S.limits.maxCallDepth closure.name) else _) machine)) ∨
    (if S.limits'.maxCallDepth ≤ (machine.callDepth : Int) then
      fault (.callsTooDeep S.limits'.maxCallDepth closure.name) else _)
      (machine.mapLines S.lines) = Result.mapLines S.lines id
        ((if S.limits.maxCallDepth ≤ (machine.callDepth : Int) then
          fault (.callsTooDeep S.limits.maxCallDepth closure.name) else _) machine)
  -- where the first run has a call left, so has the second; only the converse can fail
  by_cases full : S.limits.maxCallDepth ≤ (machine.callDepth : Int)
  · rw [if_pos full]
    rcases S.strict with lenient | ⟨same, -⟩
    · exact .inl ⟨lenient, rfl⟩
    · rw [same, if_pos full]
      exact .inr rfl
  · have calls := S.calls
    rw [if_neg full, if_neg (by omega)]
    exact called machine

end Eval

end TernLang
