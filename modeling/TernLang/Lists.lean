import TernLang.Sorting
import TernLang.Value.Equality

/-! # Operations on lists

Indexing, inclusive slices and the methods of lists. A method changes its
receiver in place, so every reference to the list sees the change; an operation
that fails changes nothing.
-/

namespace TernLang

/-- What ends an evaluation early: a fault, with the line it is reported on
once that is known; nesting beyond what the machine allows; or a loop that has
used up its passes. -/
inductive Stop where
  | fault (fault : Fault) (line : Option Nat)
  | tooDeep
  | outOfPasses

namespace Stop

/-- A fault whose line is not known yet. -/
def ofFault (fault : Fault) : Stop :=
  .fault fault none

end Stop

/-- A whole number that is used as a position. -/
def position (use : PositionUse) : Value → Except Fault Int
  | .number x _ =>
      match Number.toInt? x with
      | some i => .ok i
      | none => .error (.positionNotWhole use x)
  | value => .error (.positionNotNumber use value.type)

/-- A position below a limit, as a natural number; `length` is the length that a
message mentions. -/
def positionBelow (use : PositionUse) (limit length : Nat) (value : Value) : Except Fault Nat := do
  let i ← position use value
  if 0 ≤ i ∧ i < limit then .ok i.toNat else .error (.positionOutside use i length)

/-- A position that is accepted is the one that was given, and it is below the limit. -/
theorem position_of_positionBelow {use : PositionUse} {limit length i : Nat} {value : Value}
    (accepted : positionBelow use limit length value = .ok i) :
    position use value = .ok (i : Int) ∧ i < limit := by
  unfold positionBelow at accepted
  cases found : position use value with
  | error fault =>
      rw [found] at accepted
      cases accepted
  | ok whole =>
      rw [found] at accepted
      change (if 0 ≤ whole ∧ whole < limit then Except.ok whole.toNat else _) = _ at accepted
      split at accepted
      · rename_i inside
        cases accepted
        exact ⟨by rw [Int.toNat_of_nonneg inside.1], by omega⟩
      · cases accepted

/-- A bound of a slice that is given. -/
def sliceBound (bound : SliceBound) : Value → Except Fault Int
  | .number x i =>
      match Number.toInt? x with
      | some whole => .ok whole
      | none => .error (.boundNotWhole bound (Value.number x i).type)
  | value => .error (.boundNotWhole bound value.type)

/-- The elements at positions `first` to `last`, both included, where a missing
bound and one outside the list stand for the end of the list. -/
def sliceItems (items : Array Value) (first last : Option Int) : Array Value :=
  let end_ : Int := (items.size : Int) - 1
  let low := max (first.getD 0) 0
  let high := min (last.getD end_) end_
  if low ≤ high then items.extract low.toNat (high.toNat + 1) else #[]

/-- The order of sorting: numbers by value, strings by code points. -/
def sortsBefore : Value → Value → Bool
  | .number x _, .number y _ => x < y
  | .string s, .string t => s < t
  | _, _ => false

/-- The kinds of the elements, each once, in alphabetical order. -/
def elementTypes (items : Array Value) : List TypeName :=
  [TypeName.bool, .function, .list, .native, .null, .number, .string].filter fun type =>
    items.any (·.type == type)

/-- The elements in order. They must all be numbers or all be strings, unless
there are fewer than two. -/
def sortItems (items : Array Value) : Except Fault (Array Value) :=
  if items.size ≤ 1 then .ok items
  else
    match elementTypes items with
    | [.number] => .ok (Sorting.sort sortsBefore items.toList).toArray
    | [.string] => .ok (Sorting.sort sortsBefore items.toList).toArray
    | types => .error (.notSortable types)

namespace Heap

def getItem (heap : Heap) (target index : Value) : Except Fault Value :=
  match target with
  | .list ref => do
      let items := heap.items ref
      let i ← positionBelow .index items.size items.size index
      .ok (items.getD i .null)
  | value => .error (.notIndexable value.type)

/-- An element is read only at a position where there is one. -/
theorem getItem_inside {heap : Heap} {ref : ListRef} {index value : Value}
    (read : heap.getItem (.list ref) index = .ok value) :
    ∃ (i : Nat) (inside : i < (heap.items ref).size),
      position .index index = .ok (i : Int) ∧ value = (heap.items ref)[i] := by
  change (positionBelow .index _ (heap.items ref).size index >>= fun i => _) = _ at read
  cases accepted : positionBelow .index (heap.items ref).size (heap.items ref).size index with
  | error fault =>
      rw [accepted] at read
      cases read
  | ok i =>
      rw [accepted] at read
      cases read
      obtain ⟨given, inside⟩ := position_of_positionBelow accepted
      exact ⟨i, inside, given, by simp [inside]⟩

/-- The elements of a list between two positions, both included. -/
def slice (heap : Heap) (target : Value) (first last : Option Value) :
    Except Fault (Array Value) :=
  match target with
  | .list ref => do
      let low ← first.mapM (sliceBound .first)
      let high ← last.mapM (sliceBound .last)
      .ok (sliceItems (heap.items ref) low high)
  | value => .error (.notSliceable value.type)

/-- The position of the first element that equals `target`, counted from
`start`. -/
def indexFrom (heap : Heap) (room : Nat) (target : Value) :
    (start : Nat) → List Value → Except Stop (Option Nat)
  | _, [] => .ok none
  | start, item :: rest =>
      match heap.equal room item target with
      | none => .error .tooDeep
      | some true => .ok (some start)
      | some false => indexFrom heap room target (start + 1) rest

/-- The number that `index` gives for a position, or for its absence. -/
def positionValue : Option Nat → Value
  | some i => .ofFloat (Number.ofNat i)
  | none => .ofFloat (-1)

/-- What calling a method of a list gives, and the change it makes to the
elements of the list. -/
def methodEffect (heap : Heap) (room : Nat) (method : ListMethod) (ref : ListRef)
    (arguments : List Value) : Except Stop (Value × (Array Value → Array Value)) :=
  match method, arguments with
  | .push, [value] => .ok (.null, (·.push value))
  | .pop, [] =>
      match (heap.items ref).back? with
      | some value => .ok (value, Array.pop)
      | none => .error (.ofFault .popEmpty)
  | .insertAt, [index, value] =>
      let size := (heap.items ref).size
      match positionBelow .insertion (size + 1) size index with
      | .ok i => .ok (.null, (·.insertIdxIfInBounds i value))
      | .error fault => .error (.ofFault fault)
  | .remove, [index] =>
      let size := (heap.items ref).size
      match positionBelow .removal size size index with
      | .ok i => .ok (.null, (·.eraseIdxIfInBounds i))
      | .error fault => .error (.ofFault fault)
  | .index, [target] =>
      match heap.indexFrom room target 0 (heap.items ref).toList with
      | .ok found => .ok (positionValue found, id)
      | .error stop => .error stop
  | .len, [] => .ok (.ofFloat (Number.ofNat (heap.items ref).size), id)
  | .sort, [] =>
      match sortItems (heap.items ref) with
      | .ok sorted => .ok (.list ref, fun _ => sorted)
      | .error fault => .error (.ofFault fault)
  | method, arguments =>
      .error (.ofFault (.wrongArity method.text method.arity arguments.length))

section Effects

variable {heap : Heap} {room : Nat} {ref : ListRef} {index value result : Value}
  {change : Array Value → Array Value}

/-- An element is inserted only at a position up to the end of the list. -/
theorem methodEffect_insertAt_inside
    (effect : heap.methodEffect room .insertAt ref [index, value] = .ok (result, change)) :
    ∃ (i : Nat) (inside : i ≤ (heap.items ref).size), position .insertion index = .ok (i : Int) ∧
      change (heap.items ref) = (heap.items ref).insertIdx i value inside := by
  simp only [methodEffect] at effect
  split at effect
  · rename_i i accepted
    cases effect
    obtain ⟨given, below⟩ := position_of_positionBelow accepted
    have inside := Nat.le_of_lt_succ below
    exact ⟨i, inside, given, dif_pos inside⟩
  · cases effect

/-- An element is removed only at a position where there is one. -/
theorem methodEffect_remove_inside
    (effect : heap.methodEffect room .remove ref [index] = .ok (result, change)) :
    ∃ (i : Nat) (inside : i < (heap.items ref).size), position .removal index = .ok (i : Int) ∧
      change (heap.items ref) = (heap.items ref).eraseIdx i inside := by
  simp only [methodEffect] at effect
  split at effect
  · rename_i i accepted
    cases effect
    obtain ⟨given, inside⟩ := position_of_positionBelow accepted
    exact ⟨i, inside, given, dif_pos inside⟩
  · cases effect

/-- The last element is taken only from a list that has one. -/
theorem methodEffect_pop_inside
    (effect : heap.methodEffect room .pop ref [] = .ok (result, change)) :
    ∃ some : 0 < (heap.items ref).size, result = (heap.items ref).back some ∧
      change (heap.items ref) = (heap.items ref).pop := by
  simp only [methodEffect] at effect
  split at effect
  · rename_i last found
    cases effect
    obtain ⟨inside, rfl⟩ := Array.getElem?_eq_some_iff.mp found
    exact ⟨Nat.lt_of_le_of_lt (Nat.zero_le _) inside, rfl, rfl⟩
  · cases effect

end Effects

def callMethod (heap : Heap) (room : Nat) (method : ListMethod) (ref : ListRef)
    (arguments : List Value) : Except Stop (Value × Heap) :=
  match heap.methodEffect room method ref arguments with
  | .ok (value, change) => .ok (value, heap.modifyItems ref change)
  | .error stop => .error stop

end Heap

/-- The list and the method that a method name stands for. Only lists have
methods. -/
def resolveMethod (target : Value) (name : String) : Except Fault (ListMethod × ListRef) :=
  match target with
  | .list ref =>
      match ListMethod.ofText? name with
      | some method => .ok (method, ref)
      | none => .error (.noMethod .list name)
  | value => .error (.noMethod value.type name)

end TernLang
