import TernLang.Heap

/-! # Lists in the heap

A change of a list leaves the other lists as they are, and so does a new list. Only what
the change makes of the elements that are there counts (`Heap.modifyItems_congr`), so a
change that is undone leaves the heap as it was (`Heap.modifyItems_undo`).
-/

namespace TernLang

/-- The elements are changed at the place of the list. -/
theorem Heap.modifyItems_eq (h : Heap) (ref : ListRef) (change : Array Value → Array Value) :
    h.modifyItems ref change = { h with lists := h.lists.modify ref.id change } := by
  simp only [modifyItems, setItems]
  congr 1
  apply Array.ext_getElem?
  intro i
  rw [Array.setIfInBounds_setIfInBounds, Array.getElem?_setIfInBounds, Array.getElem?_modify]
  split
  · rename_i here
    rw [← here, items]
    split
    · rename_i inside
      rw [Array.getElem?_eq_getElem inside]
      rfl
    · rename_i outside
      rw [Array.getElem?_eq_none (Nat.le_of_not_lt outside)]
      rfl
  · rfl

/-- Only what a change makes of the one list counts. -/
theorem Heap.modifyItems_congr {h : Heap} {ref : ListRef}
    {change change' : Array Value → Array Value}
    (equal : change' (h.items ref) = change (h.items ref)) :
    h.modifyItems ref change' = h.modifyItems ref change := by
  simp only [modifyItems, equal]

section Elements

variable {h : Heap} {ref : ListRef}

theorem modifyItems_self (h : Heap) (ref : ListRef) :
    (h.modifyItems ref fun _ => h.items ref) = h := by
  obtain ⟨lists, scopes, functions, nextIdentity⟩ := h
  rw [Heap.modifyItems_eq]
  unfold Heap.items
  dsimp only
  congr 1
  refine Array.ext (Array.size_modify ..) fun i inside inside' => ?_
  rw [Array.getElem_modify]
  split
  · rename_i here
    rw [here, Array.getElem?_eq_getElem inside', Option.getD_some]
  · rfl

theorem items_modifyItems {items : Array Value} (place : ref.id < h.lists.size ∨ items = #[]) :
    (h.modifyItems ref fun _ => items).items ref = items := by
  rw [Heap.modifyItems_eq]
  unfold Heap.items
  dsimp only
  rw [Array.getElem?_modify, if_pos rfl]
  rcases place with inside | rfl
  · rw [Array.getElem?_eq_getElem inside]
    rfl
  · cases h.lists[ref.id]? <;> rfl

/-- An identity that no list has names no elements. -/
theorem items_eq_empty (outside : ¬ ref.id < h.lists.size) : h.items ref = #[] := by
  rw [Heap.items, Array.getElem?_eq_none (Nat.le_of_not_lt outside), Option.getD_none]

end Elements

namespace Heap

def withList (items : Array Value) : Heap :=
  { empty with lists := #[items] }

section Changes

variable {h : Heap} {ref other : ListRef} {change undo : Array Value → Array Value}

/-- A change that keeps the elements keeps the heap. -/
theorem modifyItems_of_self (same : change (h.items ref) = h.items ref) :
    h.modifyItems ref change = h :=
  (modifyItems_congr same).trans (modifyItems_self h ref)

@[simp] theorem size_lists_modifyItems :
    (h.modifyItems ref change).lists.size = h.lists.size := by
  rw [modifyItems_eq, Array.size_modify]

theorem items_modifyItems_self (inHeap : ref.id < h.lists.size) :
    (h.modifyItems ref change).items ref = change (h.items ref) := by
  have constant : h.modifyItems ref change = h.modifyItems ref fun _ => change (h.items ref) :=
    modifyItems_congr rfl
  rw [constant]
  exact items_modifyItems (.inl inHeap)

theorem items_modifyItems_other (differ : other ≠ ref) :
    (h.modifyItems ref change).items other = h.items other := by
  have distinct : ref.id ≠ other.id := fun same => differ (congrArg ListRef.mk same.symm)
  rw [modifyItems_eq, items, Array.getElem?_modify, if_neg distinct, items]

/-- Of two changes in a row, the second is made to what the first one left. -/
theorem modifyItems_modifyItems :
    (h.modifyItems ref change).modifyItems ref undo = h.modifyItems ref (undo ∘ change) := by
  simp only [modifyItems_eq]
  congr 1
  apply Array.ext_getElem?
  intro i
  simp only [Array.getElem?_modify]
  split
  · rw [Option.map_map]
  · rfl

/-- **A change that is undone leaves the heap as it was.** -/
theorem modifyItems_undo (undone : undo (change (h.items ref)) = h.items ref) :
    (h.modifyItems ref change).modifyItems ref undo = h := by
  rw [modifyItems_modifyItems]
  exact modifyItems_of_self undone

end Changes

section NewLists

variable {h : Heap} {ref : ListRef}

theorem items_newList_self (h : Heap) (items : Array Value) :
    (h.newList items).2.items (h.newList items).1 = items := by
  simp [newList, Heap.items]

theorem items_newList_other (inHeap : ref.id < h.lists.size) (items : Array Value) :
    (h.newList items).2.items ref = h.items ref := by
  unfold newList Heap.items
  rw [Array.getElem?_push, if_neg (Nat.ne_of_lt inHeap)]

end NewLists

end Heap

end TernLang
