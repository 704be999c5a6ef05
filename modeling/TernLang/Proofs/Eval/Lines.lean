import TernLang.Eval
import TernLang.Proofs.Lines
import TernLang.Proofs.Heap.Readings

/-! # Renumbering a machine

Of all that a machine holds only the bodies of functions carry line numbers. So
a renumbered heap gives the same answers to every reading, and changes of the
heap commute with the renumbering.
-/

namespace TernLang

/-- The function with the lines of its body renumbered. -/
def Closure.mapLines (f : Nat → Nat) (closure : Closure) : Closure :=
  { closure with body := closure.body.map (Stmt.mapLines f) }

/-- The heap with the lines of all functions renumbered. -/
def Heap.mapLines (f : Nat → Nat) (heap : Heap) : Heap :=
  { heap with functions := heap.functions.map (Closure.mapLines f) }

def Machine.mapLines (f : Nat → Nat) (machine : Machine) : Machine :=
  { machine with heap := machine.heap.mapLines f }

def Stop.mapLines (f : Nat → Nat) : Stop → Stop
  | .fault cause line => .fault cause (line.map f)
  | .tooDeep => .tooDeep
  | .outOfPasses => .outOfPasses

def Completion.mapLines (f : Nat → Nat) : Completion → Completion
  | .normal => .normal
  | .returned value line => .returned value (f line)

variable (f : Nat → Nat)

@[simp] theorem Completion.mapLines_value (completion : Completion) :
    (completion.mapLines f).value = completion.value := by
  cases completion <;> rfl

/-- Giving a stop its line and renumbering lines commute. -/
theorem Stop.located_mapLines (line : Nat) (stop : Stop) :
    (stop.mapLines f).located (f line) = (stop.located line).mapLines f := by
  cases stop with
  | fault cause place => cases place <;> rfl
  | tooDeep => rfl
  | outOfPasses => rfl

theorem Stop.inCall_mapLines (name : String) (stop : Stop) :
    (stop.mapLines f).inCall name = (stop.inCall name).mapLines f := by
  cases stop <;> rfl

theorem Stop.atTopLevel_mapLines (line : Nat) (stop : Stop) :
    (stop.mapLines f).atTopLevel (f line) = (stop.atTopLevel line).mapLines f := by
  cases stop <;> rfl

namespace Heap

@[simp] theorem mapLines_id : Heap.mapLines id = id := by
  funext heap
  have same : Closure.mapLines id = id := by
    funext closure
    simp [Closure.mapLines]
  simp [Heap.mapLines, same]

variable (h : Heap)

@[simp] theorem mapLines_lists : (h.mapLines f).lists = h.lists := rfl

@[simp] theorem mapLines_scopes : (h.mapLines f).scopes = h.scopes := rfl

/-- A function has the same name. -/
theorem functionName_mapLines (ref : FunctionRef) :
    (h.mapLines f).functionName ref = h.functionName ref := by
  unfold functionName mapLines
  simp only [Array.getElem?_map]
  cases h.functions[ref.id]? <;> rfl

/-- The text of a value does not depend on the lines of the functions in the heap. -/
theorem render_mapLines (room : Nat) (value : Value) :
    (h.mapLines f).render room value = h.render room value :=
  render_congr (mapLines_lists f h) (functionName_mapLines f h) room value

theorem define_mapLines (ref : ScopeRef) (name : String) (value : Value) :
    (h.mapLines f).define ref name value = (h.define ref name value).mapLines f := rfl

theorem newNumber_mapLines (x : Float) :
    (h.mapLines f).newNumber x = ((h.newNumber x).1, (h.newNumber x).2.mapLines f) := by
  unfold newNumber
  split <;> rfl

theorem newFunction_mapLines (closure : Closure) :
    (h.mapLines f).newFunction (closure.mapLines f) =
      ((h.newFunction closure).1, (h.newFunction closure).2.mapLines f) := by
  simp [newFunction, mapLines]

/-! ## Stops without lines

A stop gets its line from the node around it, never from a reading. -/

/-- Operators raise faults without a line, so renumbering does not touch them. -/
theorem binary_lineless (room : Nat) (op : BinaryOp) (left right : Value) :
    (h.binary room op left right).mapError (Stop.mapLines f) = h.binary room op left right := by
  have fault : ∀ reading : Except Fault Outcome,
      (reading.mapError Stop.ofFault).mapError (Stop.mapLines f) =
        reading.mapError Stop.ofFault := by
    intro reading
    cases reading <;> rfl
  cases op with
  | equal =>
      unfold binary
      cases h.equal room left right <;> rfl
  | notEqual =>
      unfold binary
      cases h.equal room left right <;> rfl
  | _ => exact fault _

theorem indexFrom_lineless (room : Nat) (target : Value) (start : Nat) (values : List Value) :
    (h.indexFrom room target start values).mapError (Stop.mapLines f) =
      h.indexFrom room target start values := by
  induction values generalizing start with
  | nil => rfl
  | cons item rest ih =>
      unfold indexFrom
      split
      · rfl
      · rfl
      · exact ih (start + 1)

/-- Methods raise faults without a line, so renumbering does not touch them. -/
theorem methodEffect_lineless (room : Nat) (method : ListMethod) (ref : ListRef)
    (arguments : List Value) :
    (h.methodEffect room method ref arguments).mapError (Stop.mapLines f) =
      h.methodEffect room method ref arguments := by
  unfold methodEffect
  split
  case h_5 target =>
    have compared := indexFrom_lineless f h room target 0 (h.items ref).toList
    cases found : h.indexFrom room target 0 (h.items ref).toList with
    | ok position => rfl
    | error stop =>
        rw [found] at compared
        exact congrArg Except.error (Except.error.inj compared)
  case h_2 => cases (h.items ref).back? <;> rfl
  case h_3 =>
    simp only
    split <;> rfl
  case h_4 =>
    simp only
    split <;> rfl
  case h_7 => cases sortItems (h.items ref) <;> rfl
  all_goals rfl

end Heap

end TernLang
