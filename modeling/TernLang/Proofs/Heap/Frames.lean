import TernLang.Proofs.Scope.Heap

/-! # Frames

A frame is what a scope shows without its values: the scope around it, and the names
it binds in the order of their declarations. A heap has the frames `frames h`; that
one heap still has all frames of another is a statement about a list and the front
of another (`<+:`).

Binding a name in a scope declares it in the frame: at the end if it is new, else it
stays in its place. Assigning to a variable changes no frame, because the name is
bound already where it is assigned to (`frames_assign`).
-/

namespace TernLang

/-- A scope without its values. -/
structure Frame where
  outer : Option ScopeRef
  names : List String
  deriving DecidableEq, Repr

namespace Frame

/-- Adds a name at the end, unless it is there. -/
def declare (frame : Frame) (name : String) : Frame :=
  if name ∈ frame.names then frame else { frame with names := frame.names ++ [name] }

/-- Adds several names, one after the other. -/
def declareAll (frame : Frame) (names : List String) : Frame :=
  names.foldl declare frame

/-- A frame that has only declarations in it has the first occurrences of the names. -/
theorem declareAll_eq_eraseDups (outer : Option ScopeRef) (names more : List String) :
    declareAll ⟨outer, names.eraseDups⟩ more = ⟨outer, (names ++ more).eraseDups⟩ := by
  induction more generalizing names with
  | nil => simp [declareAll]
  | cons name rest ih =>
      have step : declare ⟨outer, names.eraseDups⟩ name = ⟨outer, (names ++ [name]).eraseDups⟩ := by
        unfold declare
        rw [List.eraseDups_append]
        by_cases known : name ∈ names
        · simp [known, List.removeAll]
        · simp [known, List.removeAll, List.eraseDups_cons]
      show declareAll (declare ⟨outer, names.eraseDups⟩ name) rest = _
      rw [step, ih, List.append_assoc, List.singleton_append]

end Frame

def Scope.frame (scope : Scope) : Frame :=
  ⟨scope.outer, scope.bindings.map Prod.fst⟩

/-- The frames of all scopes, in the order in which they were made. -/
def Heap.frames (h : Heap) : List Frame :=
  h.scopes.toList.map Scope.frame

/-- Putting a binding adds its name at the end, unless the name is there. -/
theorem Bindings.map_fst_put (bindings : Bindings) (name : String) (value : Value) :
    (bindings.put name value).map Prod.fst =
      if name ∈ bindings.map Prod.fst then bindings.map Prod.fst
      else bindings.map Prod.fst ++ [name] := by
  induction bindings with
  | nil => simp [put]
  | cons entry rest ih =>
      obtain ⟨key, old⟩ := entry
      unfold put
      by_cases here : key = name
      · simp [here]
      · have other : name ≠ key := fun same => here same.symm
        simp only [if_neg here, List.map_cons, ih, List.mem_cons, other, false_or]
        split
        · rfl
        · rfl

theorem Bindings.mem_map_fst_of_get? {bindings : Bindings} {name : String} {value : Value}
    (found : bindings.get? name = some value) : name ∈ bindings.map Prod.fst := by
  induction bindings with
  | nil => cases found
  | cons entry rest ih =>
      obtain ⟨key, old⟩ := entry
      unfold get? at found
      by_cases here : key = name
      · simp [here]
      · rw [if_neg here] at found
        exact List.mem_cons_of_mem key (ih found)

theorem Scope.frame_put (scope : Scope) (name : String) (value : Value) :
    Scope.frame { scope with bindings := scope.bindings.put name value } =
      scope.frame.declare name := by
  unfold Scope.frame Frame.declare
  rw [Bindings.map_fst_put]
  split <;> rfl

/-- The front of a list stays the front if both are changed at one place. -/
theorem isPrefix_modify {α : Type} {xs ys : List α} (front : xs <+: ys) (i : Nat) (f : α → α) :
    xs.modify i f <+: ys.modify i f := by
  rw [List.prefix_iff_eq_take.mp front, ← List.take_modify]
  exact List.take_prefix _ _

namespace Heap

variable (h : Heap)

/-- Defining a name declares it in one frame. -/
theorem frames_define (s : ScopeRef) (name : String) (value : Value) :
    (h.define s name value).frames = h.frames.modify s.id (·.declare name) := by
  apply List.ext_getElem?
  intro i
  unfold define frames
  rw [Array.toList_modify, List.getElem?_map, List.getElem?_modify, List.getElem?_modify,
    List.getElem?_map]
  cases h.scopes.toList[i]? with
  | none => rfl
  | some scope =>
      by_cases here : s.id = i
      · simpa [here] using scope.frame_put name value
      · simp [here]

/-- A new scope is one more frame. -/
theorem frames_newScope (scope : Scope) :
    (h.newScope scope).2.frames = h.frames ++ [scope.frame] := by
  simp [newScope, frames]

theorem frames_length : h.frames.length = h.scopes.size := by
  simp [frames]

/-- The nearest scope with a binding of a name has the name in its frame. -/
theorem mem_names_of_findWithin {name : String} {fuel : Nat} {s owner : ScopeRef}
    (found : h.findWithin name fuel s = some owner) :
    ∃ frame, h.frames[owner.id]? = some frame ∧ name ∈ frame.names := by
  obtain ⟨value, own⟩ := Option.isSome_iff_exists.mp (ownBinding_of_findWithin found)
  obtain ⟨scope, here, bound⟩ := Option.bind_eq_some_iff.mp own
  refine ⟨scope.frame, ?_, ?_⟩
  · simp [frames, here]
  · exact Bindings.mem_map_fst_of_get? bound

/-- Assigning to a variable changes no frame. -/
theorem frames_assign {s owner : ScopeRef} {name : String} (found : h.owner s name = .ok owner)
    (value : Value) : (h.define owner name value).frames = h.frames := by
  unfold Heap.owner at found
  cases where? : h.find s name with
  | none => simp [where?] at found
  | some other =>
      rw [where?] at found
      cases found
      obtain ⟨frame, here, mem⟩ := h.mem_names_of_findWithin where?
      rw [frames_define]
      apply List.ext_getElem?
      intro i
      rw [List.getElem?_modify]
      by_cases same : owner.id = i
      · subst same
        simp [here, Frame.declare, mem]
      · simp [same]

end Heap

end TernLang
