import TernLang.Eval

/-! # The faults of single operations

Each operation on values fails only with faults of a few kinds. `FaultsIn` says so of
an operation that fails with a fault, `StopsIn` of one that can also run out of
nesting. No operation reports that calls went too deep: that is left to the call
itself. A native function that is given as many arguments as it takes does not
report that their number is wrong (`methodEffect_stopsIn`).
-/

namespace TernLang

/-- Whatever fault the reading ends with is of one of the kinds. -/
def FaultsIn {α : Type} (kinds : List FaultKind) (reading : Except Fault α) : Prop :=
  ∀ fault, reading = .error fault → fault.kind ∈ kinds

/-- The stop is for want of nesting, or it is a fault of one of the kinds whose line
is not known yet. -/
def Stop.In (kinds : List FaultKind) (stop : Stop) : Prop :=
  stop = .tooDeep ∨ ∃ fault : Fault, stop = .ofFault fault ∧ fault.kind ∈ kinds

/-- Whatever the reading stops with is of one of the kinds. -/
def StopsIn {α : Type} (kinds : List FaultKind) (reading : Except Stop α) : Prop :=
  ∀ stop, reading = .error stop → stop.In kinds

section Rules

variable {α β : Type} {kinds more : List FaultKind}

theorem faultsIn_ok (a : α) : FaultsIn kinds (.ok a) :=
  fun _ failed => nomatch failed

theorem faultsIn_error {fault : Fault} (mem : fault.kind ∈ kinds) :
    FaultsIn kinds (.error fault : Except Fault α) := by
  intro other failed
  cases failed
  exact mem

/-- One reading after the other fails with what one of them fails with. -/
theorem FaultsIn.bind {reading : Except Fault α} {rest : α → Except Fault β}
    (first : FaultsIn kinds reading) (second : ∀ a, FaultsIn kinds (rest a)) :
    FaultsIn kinds (reading >>= rest) := by
  cases reading with
  | ok a => exact second a
  | error fault => exact faultsIn_error (first fault rfl)

theorem FaultsIn.mono {reading : Except Fault α} (faults : FaultsIn kinds reading)
    (subset : kinds ⊆ more) : FaultsIn more reading :=
  fun fault failed => subset (faults fault failed)

theorem stopsIn_ok (a : α) : StopsIn kinds (.ok a) :=
  fun _ failed => nomatch failed

theorem stopsIn_tooDeep : StopsIn kinds (.error .tooDeep : Except Stop α) := by
  intro stop failed
  cases failed
  exact .inl rfl

theorem stopsIn_fault {fault : Fault} (mem : fault.kind ∈ kinds) :
    StopsIn kinds (.error (.ofFault fault) : Except Stop α) := by
  intro stop failed
  cases failed
  exact .inr ⟨fault, rfl, mem⟩

/-- A reading whose faults were turned into stops. -/
theorem FaultsIn.stops {reading : Except Fault α} (faults : FaultsIn kinds reading) :
    StopsIn kinds (reading.mapError .ofFault) := by
  cases reading with
  | ok a => exact stopsIn_ok a
  | error fault => exact stopsIn_fault (faults fault rfl)

end Rules

/-! ## Names -/

theorem Heap.lookup_faultsIn (h : Heap) (s : ScopeRef) (name : String) :
    FaultsIn [.undefinedVariable] (h.lookup s name) := by
  unfold Heap.lookup
  split
  · exact faultsIn_ok _
  · exact faultsIn_error (by simp [Fault.kind])

theorem Heap.owner_faultsIn (h : Heap) (s : ScopeRef) (name : String) :
    FaultsIn [.undefinedVariable] (h.owner s name) := by
  unfold Heap.owner
  split
  · exact faultsIn_ok _
  · exact faultsIn_error (by simp [Fault.kind])

/-! ## Operators -/

theorem numberOperands_faultsIn (op : BinaryOp) (left right : Value) :
    FaultsIn [.typeMismatch] (numberOperands op left right) := by
  unfold numberOperands
  split
  · exact faultsIn_ok _
  · exact faultsIn_error (by simp [Fault.kind])

theorem arithmetic_faultsIn (op : BinaryOp) (compute : Float → Float → Float)
    (left right : Value) : FaultsIn [.typeMismatch] (arithmetic op compute left right) :=
  (numberOperands_faultsIn op left right).bind fun _ => faultsIn_ok _

theorem ordering_faultsIn (op : BinaryOp) (compare : Float → Float → Bool) (left right : Value) :
    FaultsIn [.typeMismatch] (ordering op compare left right) :=
  (numberOperands_faultsIn op left right).bind fun _ => faultsIn_ok _

theorem addValues_faultsIn (left right : Value) :
    FaultsIn [.typeMismatch] (addValues left right) := by
  unfold addValues
  split
  · exact faultsIn_ok _
  · exact faultsIn_ok _
  · exact faultsIn_error (by simp [Fault.kind])

theorem divideValues_faultsIn (left right : Value) :
    FaultsIn [.typeMismatch, .divisionByZero] (divideValues left right) := by
  refine .bind ((numberOperands_faultsIn .divide left right).mono (by simp)) fun (x, y) => ?_
  show FaultsIn _ (if y == 0 then _ else _)
  split
  · exact faultsIn_error (by simp [Fault.kind])
  · exact faultsIn_ok _

/-- An operator reports the wrong types of its operands, or a division by zero. -/
theorem Heap.binary_stopsIn (h : Heap) (room : Nat) (op : BinaryOp) (left right : Value) :
    StopsIn [.typeMismatch, .divisionByZero] (h.binary room op left right) := by
  have computed : ∀ compute, StopsIn [.typeMismatch, .divisionByZero]
      ((arithmetic op compute left right).mapError .ofFault) :=
    fun compute => ((arithmetic_faultsIn op compute left right).mono (by simp)).stops
  have compared : ∀ compare, StopsIn [.typeMismatch, .divisionByZero]
      ((ordering op compare left right).mapError .ofFault) :=
    fun compare => ((ordering_faultsIn op compare left right).mono (by simp)).stops
  cases op with
  | add => exact ((addValues_faultsIn left right).mono (by simp)).stops
  | subtract => exact computed _
  | multiply => exact computed _
  | divide => exact (divideValues_faultsIn left right).stops
  | less => exact compared _
  | lessEqual => exact compared _
  | greater => exact compared _
  | greaterEqual => exact compared _
  | equal =>
      simp only [Heap.binary]
      split
      · exact stopsIn_ok _
      · exact stopsIn_tooDeep
  | notEqual =>
      simp only [Heap.binary]
      split
      · exact stopsIn_ok _
      · exact stopsIn_tooDeep

theorem negateValue_faultsIn (value : Value) : FaultsIn [.typeMismatch] (negateValue value) := by
  unfold negateValue
  split
  · exact faultsIn_ok _
  · exact faultsIn_error (by simp [Fault.kind])

theorem stepValue_faultsIn (name : String) (step : Step) (value : Value) :
    FaultsIn [.typeMismatch] (stepValue name step value) := by
  unfold stepValue
  split
  · exact faultsIn_ok _
  · exact faultsIn_error (by simp [Fault.kind])

theorem hashValue_faultsIn (value : Value) : FaultsIn [.typeMismatch] (hashValue value) := by
  unfold hashValue
  split
  · exact faultsIn_ok _
  · exact faultsIn_error (by simp [Fault.kind])

/-! ## Lists -/

theorem position_faultsIn (use : PositionUse) (value : Value) :
    FaultsIn [.typeMismatch, .indexOutOfRange] (position use value) := by
  unfold position
  split
  · split
    · exact faultsIn_ok _
    · exact faultsIn_error (by simp [Fault.kind])
  · exact faultsIn_error (by simp [Fault.kind])

/-- A position is refused for its type or its value. -/
theorem positionBelow_faultsIn (use : PositionUse) (limit length : Nat) (value : Value) :
    FaultsIn [.typeMismatch, .indexOutOfRange] (positionBelow use limit length value) := by
  refine (position_faultsIn use value).bind fun i => ?_
  split
  · exact faultsIn_ok _
  · exact faultsIn_error (by simp [Fault.kind])

theorem sliceBound_faultsIn (bound : SliceBound) (value : Value) :
    FaultsIn [.typeMismatch] (sliceBound bound value) := by
  unfold sliceBound
  split
  · split
    · exact faultsIn_ok _
    · exact faultsIn_error (by simp [Fault.kind])
  · exact faultsIn_error (by simp [Fault.kind])

/-- A bound that is missing is no fault. -/
theorem sliceBounds_faultsIn (bound : SliceBound) (value : Option Value) :
    FaultsIn [.typeMismatch] (value.mapM (sliceBound bound)) := by
  cases value with
  | none => exact faultsIn_ok none
  | some value => exact (sliceBound_faultsIn bound value).bind fun i => faultsIn_ok (some i)

theorem Heap.getItem_faultsIn (h : Heap) (target index : Value) :
    FaultsIn [.typeMismatch, .indexOutOfRange] (h.getItem target index) := by
  unfold Heap.getItem
  split
  · exact (positionBelow_faultsIn _ _ _ _).bind fun _ => faultsIn_ok _
  · exact faultsIn_error (by simp [Fault.kind])

theorem Heap.slice_faultsIn (h : Heap) (target : Value) (first last : Option Value) :
    FaultsIn [.typeMismatch] (h.slice target first last) := by
  unfold Heap.slice
  split
  · refine (sliceBounds_faultsIn _ first).bind fun low => ?_
    exact (sliceBounds_faultsIn _ last).bind fun high => faultsIn_ok _
  · exact faultsIn_error (by simp [Fault.kind])

theorem resolveMethod_faultsIn (target : Value) (name : String) :
    FaultsIn [.typeMismatch] (resolveMethod target name) := by
  unfold resolveMethod
  split
  · split
    · exact faultsIn_ok _
    · exact faultsIn_error (by simp [Fault.kind])
  · exact faultsIn_error (by simp [Fault.kind])

/-- Sorting reports elements that cannot be compared. -/
theorem sortItems_faultsIn (items : Array Value) : FaultsIn [.typeMismatch] (sortItems items) := by
  unfold sortItems
  split
  · exact faultsIn_ok _
  · split
    · exact faultsIn_ok _
    · exact faultsIn_ok _
    · exact faultsIn_error (by simp [Fault.kind])

/-- A search reports nothing; it may run out of nesting. -/
theorem Heap.indexFrom_stopsIn (h : Heap) (room : Nat) (target : Value) (start : Nat)
    (items : List Value) : StopsIn [] (h.indexFrom room target start items) := by
  induction items generalizing start with
  | nil => exact stopsIn_ok none
  | cons item rest ih =>
      unfold Heap.indexFrom
      split
      · exact stopsIn_tooDeep
      · exact stopsIn_ok _
      · exact ih (start + 1)

/-- A method that has all its arguments finds each of them: it does not report that
their number is wrong. -/
theorem Heap.methodEffect_stopsIn (h : Heap) (room : Nat) {method : ListMethod} (ref : ListRef)
    {arguments : List Value} (arity : arguments.length = method.arity) :
    StopsIn [.typeMismatch, .indexOutOfRange, .emptyList]
      (h.methodEffect room method ref arguments) := by
  have placed : ∀ use limit length index, FaultsIn [.typeMismatch, .indexOutOfRange, .emptyList]
      (positionBelow use limit length index) :=
    fun use limit length index => (positionBelow_faultsIn use limit length index).mono (by simp)
  have sorted : FaultsIn [.typeMismatch, .indexOutOfRange, .emptyList] (sortItems (h.items ref)) :=
    (sortItems_faultsIn _).mono (by simp)
  unfold Heap.methodEffect
  split
  · exact stopsIn_ok _
  · split
    · exact stopsIn_ok _
    · exact stopsIn_fault (by simp [Fault.kind])
  · simp only
    split
    · exact stopsIn_ok _
    · rename_i fault wrong
      exact stopsIn_fault (placed _ _ _ _ fault wrong)
  · simp only
    split
    · exact stopsIn_ok _
    · rename_i fault wrong
      exact stopsIn_fault (placed _ _ _ _ fault wrong)
  · split
    · exact stopsIn_ok _
    · rename_i stop wrong
      intro other failed
      cases failed
      -- comparing elements raises no fault, but it can be too deep
      rcases h.indexFrom_stopsIn room _ _ _ stop wrong with deep | ⟨fault, -, mem⟩
      · exact .inl deep
      · cases mem
  · exact stopsIn_ok _
  · split
    · exact stopsIn_ok _
    · rename_i fault wrong
      exact stopsIn_fault (sorted fault wrong)
  · -- what is left are arguments that are too few or too many for the method
    rename_i push pop insertAt remove index len sort
    exfalso
    cases method with
    | push =>
        obtain ⟨value, rfl⟩ := List.length_eq_one_iff.mp arity
        exact push value rfl rfl
    | pop => exact pop rfl (List.length_eq_zero_iff.mp arity)
    | insertAt =>
        match arguments, arity with
        | [i, value], _ => exact insertAt i value rfl rfl
    | remove =>
        obtain ⟨i, rfl⟩ := List.length_eq_one_iff.mp arity
        exact remove i rfl rfl
    | index =>
        obtain ⟨target, rfl⟩ := List.length_eq_one_iff.mp arity
        exact index target rfl rfl
    | len => exact len rfl (List.length_eq_zero_iff.mp arity)
    | sort => exact sort rfl (List.length_eq_zero_iff.mp arity)

end TernLang
