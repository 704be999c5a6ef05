import TernLang.Value.Render

/-! # Writing out nested lists

While a value is written out, the lists around it are kept in one collection, which is
handed from each value to the next. **After each value the collection is what it was
before** (`renderWith_eq`): so the text depends on the lists around a value only, and not
on its neighbours (`textWithin`).
-/

namespace TernLang.Heap

/-- The text that `print` shows for a value inside the lists `active`. -/
def textWithin (h : Heap) : (room : Nat) → (active : List ListRef) → Value → Option String
  | 0, _, _ => none
  | room + 1, active, .list ref =>
      if active.contains ref then some innerOccurrence
      else ((h.items ref).toList.mapM (h.textWithin room (ref :: active))).map bracketed
  | _ + 1, _, value => some (h.renderScalar value)

/-- Inside itself a list is printed as its inner occurrence. -/
theorem textWithin_of_mem {h : Heap} {room : Nat} {active : List ListRef} {ref : ListRef}
    (mem : ref ∈ active) : h.textWithin (room + 1) active (.list ref) = some innerOccurrence :=
  if_pos (List.contains_iff_mem.mpr mem)

/-- Anywhere else a list is printed as its elements, with itself in progress. -/
theorem textWithin_of_notMem {h : Heap} {room : Nat} {active : List ListRef} {ref : ListRef}
    (notMem : ref ∉ active) : h.textWithin (room + 1) active (.list ref) =
      ((h.items ref).toList.mapM (h.textWithin room (ref :: active))).map bracketed :=
  if_neg (mt List.contains_iff_mem.mp notMem)

/-- Printing with a stack that every element gives back is mapping the text over the
elements. -/
theorem renderAll_eq {render : List ListRef → Value → Option (String × List ListRef)}
    {active : List ListRef} {text : Value → Option String}
    (restores : ∀ value, render active value = (text value).map (·, active))
    (values : List Value) :
    renderAll render active values = (values.mapM text).map (·, active) := by
  induction values with
  | nil => rfl
  | cons value rest ih =>
      rw [renderAll, restores, List.mapM_cons]
      cases text value with
      | none => rfl
      | some first =>
          dsimp only [Option.map_some]
          rw [ih]
          cases rest.mapM text <;> rfl

/-- **After each value, the lists that are being written out are those from before.** -/
theorem renderWith_eq (h : Heap) (room : Nat) (active : List ListRef) (value : Value) :
    h.renderWith room active value = (h.textWithin room active value).map (·, active) := by
  induction room generalizing active value with
  | zero => rfl
  | succ room ih =>
      cases value with
      | list ref =>
          rw [renderWith, textWithin]
          by_cases inside : active.contains ref = true
          · rw [if_pos inside, if_pos inside]
            rfl
          · rw [if_neg inside, if_neg inside, renderAll_eq (ih (ref :: active))]
            cases (h.items ref).toList.mapM (h.textWithin room (ref :: active)) with
            | none => rfl
            | some texts => simp
      | null | bool | number | string | function | native => rfl

/-- The printer's stack of lists in progress is the set of ancestors. -/
theorem render_eq (h : Heap) (room : Nat) (value : Value) :
    h.render room value = h.textWithin room [] value := by
  rw [render, renderWith_eq, Option.map_map]
  exact Option.map_id_apply

end TernLang.Heap
