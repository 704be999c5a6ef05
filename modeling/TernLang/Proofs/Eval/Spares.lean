import TernLang.Proofs.Eval.Bind
import TernLang.Proofs.Faults

/-! # Faults that no single operation reports

Some faults are not about values: that calls went too deep is reported by the call
itself, that a `return` stands outside of functions by the program. `Spares kind`
says of a computation that it reports no fault of a kind. **Every operation on the
machine spares the kinds that are not among `operationKinds`**, so that what reports
one of these can be traced to the one place where it is raised.
-/

namespace TernLang.Eval

/-- The kinds of the faults that single operations report. -/
def operationKinds : List FaultKind :=
  [.undefinedVariable, .arityMismatch, .typeMismatch, .indexOutOfRange, .emptyList,
    .divisionByZero]

/-- The computation never stops with a fault of the kind. -/
def Spares {α : Type} (kind : FaultKind) (action : Eval α) : Prop :=
  ∀ m cause line after, action m = .error (.fault cause line) after → cause.kind ≠ kind

variable {α β : Type} {kind : FaultKind}

/-! ## Rules -/

theorem spares_pure (a : α) : Spares kind (pure a) := by
  intro m cause line after stopped
  cases stopped

theorem Spares.bind {action : Eval α} {rest : α → Eval β} (first : Spares kind action)
    (second : ∀ a, Spares kind (rest a)) : Spares kind (action >>= rest) := by
  intro m cause line after stopped
  rw [bind_run] at stopped
  cases ran : action m with
  | ok a n =>
      rw [ran] at stopped
      exact second a n cause line after stopped
  | error stop n =>
      rw [ran] at stopped
      cases stopped
      exact first m cause line after ran

/-- Giving a fault a line leaves its kind. -/
theorem Spares.located {action : Eval α} (spares : Spares kind action) (place : Nat) :
    Spares kind (mapStop (Stop.located place) action) := by
  intro m cause line after stopped
  unfold mapStop at stopped
  cases ran : action m with
  | ok a n =>
      rw [ran] at stopped
      cases stopped
  | error stop n =>
      rw [ran] at stopped
      cases stop with
      | fault cause' line' =>
          have same : cause' = cause := by
            cases line' <;> cases stopped <;> rfl
          rw [← same]
          exact spares m cause' line' n ran
      | tooDeep => cases stopped
      | outOfPasses => cases stopped

theorem spares_fault {cause : Fault} (other : cause.kind ≠ kind) :
    Spares kind (fault cause : Eval α) := by
  intro m cause' line after stopped
  cases stopped
  exact other

theorem spares_tooDeep : Spares kind (tooDeep : Eval α) := by
  intro m cause line after stopped
  cases stopped

theorem spares_update (change : Heap → Heap) : Spares kind (update change) := by
  intro m cause line after stopped
  cases stopped

theorem spares_allocate (create : Heap → α × Heap) : Spares kind (allocate create) := by
  intro m cause line after stopped
  cases stopped

theorem spares_print (room : Nat) (value : Value) : Spares kind (print room value) := by
  intro m cause line after stopped
  unfold print at stopped
  split at stopped <;> cases stopped

theorem spares_settle (outcome : Outcome) : Spares kind (settle outcome) := by
  cases outcome with
  | value value => exact spares_pure value
  | number x => exact spares_allocate (·.newNumber x)

theorem spares_newList (items : Array Value) : Spares kind (newList items) :=
  (spares_allocate _).bind fun _ => spares_pure _

/-! ## Operations that report faults -/

section Operations

variable (other : kind ∉ operationKinds)
include other

/-- A reading spares every kind of fault that operations do not raise. -/
theorem spares_inspect {kinds : List FaultKind} {read : Heap → Except Fault α}
    (faults : ∀ h, FaultsIn kinds (read h)) (known : kinds ⊆ operationKinds) :
    Spares kind (inspect read) := by
  intro m cause line after stopped
  unfold inspect at stopped
  cases found : read m.heap with
  | ok a =>
      rw [found] at stopped
      cases stopped
  | error fault =>
      rw [found] at stopped
      cases stopped
      rintro rfl
      exact other (known (faults m.heap _ found))

/-- A comparison or method spares every kind of fault that operations do not raise. -/
theorem spares_query {kinds : List FaultKind} {read : Heap → Except Stop α}
    (stops : ∀ h, StopsIn kinds (read h)) (known : kinds ⊆ operationKinds) :
    Spares kind (query read) := by
  intro m cause line after stopped
  unfold query at stopped
  cases found : read m.heap with
  | ok a =>
      rw [found] at stopped
      cases stopped
  | error stop =>
      rw [found] at stopped
      cases stopped
      rintro rfl
      rcases stops m.heap _ found with deep | ⟨fault, same, mem⟩
      · cases deep
      · cases same
        exact other (known mem)

theorem spares_lookup (s : ScopeRef) (name : String) : Spares kind (inspect (·.lookup s name)) :=
  spares_inspect other (fun h => h.lookup_faultsIn s name) (by decide)

theorem spares_assign (s : ScopeRef) (name : String) (value : Value) :
    Spares kind (assign s name value) :=
  (spares_inspect other (fun h => h.owner_faultsIn s name) (by decide)).bind
    fun _ => spares_update _

theorem spares_increment (s : ScopeRef) (name : String) (step : Step) :
    Spares kind (increment s name step) := by
  refine (spares_lookup other s name).bind fun current => ?_
  refine (spares_inspect other (fun _ => stepValue_faultsIn name step current) (by decide)).bind ?_
  intro outcome
  refine (spares_settle outcome).bind fun updated => ?_
  exact (spares_assign other s name updated).bind fun _ => spares_pure updated

theorem spares_negate (value : Value) :
    Spares kind (inspect (fun _ => negateValue value) >>= settle) :=
  (spares_inspect other (fun _ => negateValue_faultsIn value) (by decide)).bind spares_settle

theorem spares_binary (room : Nat) (op : BinaryOp) (a b : Value) :
    Spares kind (query (·.binary room op a b) >>= settle) :=
  (spares_query other (fun h => h.binary_stopsIn room op a b) (by decide)).bind spares_settle

theorem spares_member (value : Value) (name : String) :
    Spares kind (inspect (fun _ => resolveMethod value name) >>=
      fun (method, receiver) => allocate (·.newMethod method receiver)) :=
  (spares_inspect other (fun _ => resolveMethod_faultsIn value name) (by decide)).bind
    fun _ => spares_allocate _

theorem spares_index (list index : Value) : Spares kind (inspect (·.getItem list index)) :=
  spares_inspect other (fun h => h.getItem_faultsIn list index) (by decide)

theorem spares_slice (list : Value) (low high : Option Value) :
    Spares kind (inspect (·.slice list low high) >>= newList) :=
  (spares_inspect other (fun h => h.slice_faultsIn list low high) (by decide)).bind spares_newList

theorem spares_closure (ref : FunctionRef) : Spares kind (closure ref) := by
  intro m cause line after stopped
  unfold closure at stopped
  split at stopped
  · cases stopped
  · cases stopped
    rintro rfl
    exact other (by decide)

theorem spares_callNative (room : Nat) (native : Native) (values : List Value) :
    Spares kind (callNative room native values) := by
  have arityKind : FaultKind.arityMismatch ≠ kind := by
    rintro rfl
    exact other (by decide)
  unfold callNative
  by_cases arity : values.length = native.arity
  · rw [if_neg (Decidable.not_not.mpr arity)]
    split
    · rename_i method receiver identity
      refine (spares_query other (fun h => h.methodEffect_stopsIn room receiver arity)
        (by decide)).bind fun (value, change) => ?_
      exact (spares_update _).bind fun _ => spares_pure value
    · exact spares_inspect other (fun _ => hashValue_faultsIn _) (by decide)
    · exact spares_fault arityKind
  · rw [if_pos arity]
    exact spares_fault arityKind

end Operations

/-! ## Lists and loops -/

theorem spares_each {action : α → Eval β} (spares : ∀ x, Spares kind (action x)) (xs : List α) :
    Spares kind (each action xs) := by
  induction xs with
  | nil => exact spares_pure []
  | cons x rest ih => exact (spares x).bind fun y => ih.bind fun ys => spares_pure _

theorem spares_optional {action : α → Eval Value} (spares : ∀ x, Spares kind (action x))
    (x : Option α) : Spares kind (optional action x) := by
  cases x with
  | none => exact spares_pure none
  | some x => exact (spares x).bind fun _ => spares_pure _

/-- After a computation that does not return, the rest has its turn. -/
theorem Spares.completed {action rest : Eval Completion} (first : Spares kind action)
    (second : Spares kind rest) :
    Spares kind (action >>= fun completion =>
      match completion with
      | .normal => rest
      | completion => pure completion) := by
  refine first.bind fun completion => ?_
  cases completion with
  | normal => exact second
  | returned value line => exact spares_pure _

theorem spares_sequence {action : α → Eval Completion} (spares : ∀ x, Spares kind (action x))
    (xs : List α) : Spares kind (sequence action xs) := by
  induction xs with
  | nil => exact spares_pure _
  | cons x rest ih => exact (spares x).completed ih

/-- A loop spares what its test and its body spare. -/
theorem spares_loop {condition : Eval Value} {body : Eval Completion}
    (tests : Spares kind condition) (passes : Spares kind body) (count : Nat) :
    Spares kind (loop condition body count) := by
  induction count with
  | zero =>
      intro m cause line after stopped
      cases stopped
  | succ count ih =>
      refine tests.bind fun value => ?_
      split
      · exact passes.completed ih
      · exact spares_pure _

end TernLang.Eval
