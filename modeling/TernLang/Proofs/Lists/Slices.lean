import TernLang.Proofs.Heap.Lists
import TernLang.Proofs.Lists.Bounds

/-! # Slices

**A slice has the elements at exactly the positions between its bounds, both included**
(`slices_select`). A bound is any integer, or missing; it may be negative, beyond the end
or past the other bound, and a slice never fails for that. So a list is the slice up to a
position followed by the slice after it, and a slice of a slice is a slice.

Positions are natural numbers and bounds are not. A slice is therefore compared to what
is left of the list after its first elements were dropped and only so many were taken
before that (`window`).
-/

namespace TernLang

/-- The elements at the positions `k` with `first ≤ k` and `k ≤ last`, in order; a bound that
is missing excludes nothing. -/
def selected (items : List Value) (first last : Option ℤ) : List Value :=
  (items.zipIdx.filter fun entry =>
    first.all (fun a => decide (a ≤ entry.2)) && last.all (fun b => decide (entry.2 ≤ b))).map
      Prod.fst

/-- The elements from position `start` on that are in front of position `stop`. -/
def window (items : List Value) (start stop : Nat) : List Value :=
  (items.take stop).drop start

/-- The first position that is not in front of a bound. -/
def startOf (first : Option ℤ) : Nat :=
  (first.getD 0).toNat

/-- The first position behind a bound. -/
def stopOf (length : Nat) (last : Option ℤ) : Nat :=
  (last.getD (length - 1) + 1).toNat

section Windows

variable {items : List Value} {start stop start' stop' : Nat} {first last : Option ℤ}

theorem getElem?_window (items : List Value) (start stop m : Nat) :
    (window items start stop)[m]? = if start + m < stop then items[start + m]? else none := by
  rw [window, List.getElem?_drop, List.getElem?_take]

/-- Two windows are the same if they show the same positions of the list. -/
theorem window_congr (same : ∀ k < items.length, start ≤ k → (k < stop ↔ k < stop')) :
    window items start stop = window items start stop' := by
  apply List.ext_getElem?
  intro m
  rw [getElem?_window, getElem?_window]
  rcases Nat.lt_or_ge (start + m) items.length with inside | outside
  · have positions := same (start + m) inside (Nat.le_add_right _ _)
    by_cases shown : start + m < stop
    · rw [if_pos shown, if_pos (positions.mp shown)]
    · rw [if_neg shown, if_neg (mt positions.mpr shown)]
  · rw [List.getElem?_eq_none outside, ite_self, ite_self]

/-- A window of a window. -/
theorem window_window :
    window (window items start stop) start' stop' =
      window items (start + start') (min stop (start + stop')) := by
  apply List.ext_getElem?
  intro m
  rw [getElem?_window, getElem?_window, getElem?_window, Nat.add_assoc]
  by_cases inner : start' + m < stop'
  · rw [if_pos inner]
    exact if_congr (by omega) rfl rfl
  · rw [if_neg inner, if_neg (by omega)]

/-- The positions of a window, in a list whose first position is `offset`. -/
theorem map_filter_zipIdx (items : List Value) (offset start stop : Nat) :
    ((items.zipIdx offset).filter fun entry => decide (start ≤ entry.2 ∧ entry.2 < stop)).map
      Prod.fst = window items (start - offset) (stop - offset) := by
  induction items generalizing offset with
  | nil => simp [window]
  | cons item rest ih =>
      rw [List.zipIdx_cons]
      by_cases before : offset < start
      · -- the first position is in front of the window
        have shifted : start - offset = start - (offset + 1) + 1 := by omega
        rw [List.filter_cons_of_neg (by simp; omega), ih, window, window, shifted]
        by_cases empty : stop ≤ offset
        · rw [show stop - offset = 0 by omega, show stop - (offset + 1) = 0 by omega,
            List.take_zero, List.take_zero, List.drop_nil, List.drop_nil]
        · rw [show stop - offset = stop - (offset + 1) + 1 by omega]
          rfl
      · have none : start - offset = 0 := by omega
        have none' : start - (offset + 1) = 0 := by omega
        rw [window, none, List.drop_zero]
        by_cases inside : offset < stop
        · rw [List.filter_cons_of_pos (by simp; omega), List.map_cons, ih, window, none',
            List.drop_zero, show stop - offset = stop - (offset + 1) + 1 by omega,
            List.take_succ_cons]
        · rw [List.filter_cons_of_neg (by simp; omega), ih, window, none', List.drop_zero,
            show stop - offset = 0 by omega, show stop - (offset + 1) = 0 by omega]
          rfl

/-- **The selected elements are those of a window.** -/
theorem selected_eq_window (items : List Value) (first last : Option ℤ) :
    selected items first last = window items (startOf first) (stopOf items.length last) := by
  have exact := map_filter_zipIdx items 0 (startOf first) (stopOf items.length last)
  rw [Nat.sub_zero, Nat.sub_zero] at exact
  rw [← exact, selected]
  congr 1
  refine List.filter_congr fun entry mem => ?_
  have inside := List.snd_lt_of_mem_zipIdx mem
  rw [Bool.eq_iff_iff, Bool.and_eq_true, decide_eq_true_eq]
  refine and_congr ?_ ?_
  · cases first with
    | none => simp [startOf]
    | some a =>
        simp only [Option.all_some, decide_eq_true_eq, startOf, Option.getD_some]
        omega
  · cases last with
    | none =>
        simp only [Option.all_none, stopOf, Option.getD_none, true_iff]
        omega
    | some b =>
        simp only [Option.all_some, decide_eq_true_eq, stopOf, Option.getD_some]
        omega

/-- **A slice has the elements of a window.** -/
theorem toList_sliceItems (items : Array Value) (first last : Option ℤ) :
    (sliceItems items first last).toList =
      window items.toList (startOf first) (stopOf items.size last) := by
  have start : (max (first.getD 0) 0).toNat = startOf first := by
    unfold startOf
    omega
  unfold sliceItems
  dsimp only
  have stop : stopOf items.size last = (last.getD (items.size - 1) + 1).toNat := rfl
  generalize last.getD (items.size - 1) = b at stop ⊢
  split
  · rename_i ordered
    rw [Array.toList_extract, List.extract_eq_take_drop, ← List.drop_take, start]
    refine window_congr fun k inside _ => ?_
    rw [Array.length_toList] at inside
    omega
  · rename_i crossed
    have empty : window items.toList (startOf first) 0 = [] := by simp [window]
    rw [← empty]
    refine window_congr fun k inside _ => ?_
    rw [Array.length_toList] at inside
    omega

end Windows

namespace Heap

variable {h g : Heap} {ref part : ListRef} {a b c d : Option Value}
  {first last first' last' : Option ℤ}

/-- Bounds that are integers or missing give a slice. -/
theorem slice_eq_ok (low : Option.Rel Value.IsInteger a first)
    (high : Option.Rel Value.IsInteger b last) :
    h.slice (.list ref) a b = .ok (sliceItems (h.items ref) first last) := by
  show (a.mapM (sliceBound .first) >>= fun low => b.mapM (sliceBound .last) >>= fun high =>
    .ok (sliceItems (h.items ref) low high)) = _
  rw [mapM_sliceBound_eq_ok_iff.mpr low, mapM_sliceBound_eq_ok_iff.mpr high]
  rfl

/-- Any other bounds are refused. -/
theorem slice_eq_error
    (other : ¬ ((∃ first, Option.Rel Value.IsInteger a first) ∧
      ∃ last, Option.Rel Value.IsInteger b last)) :
    ∃ fault, h.slice (.list ref) a b = .error fault ∧ fault.kind = .typeMismatch := by
  show ∃ fault, (a.mapM (sliceBound .first) >>= fun low => b.mapM (sliceBound .last) >>= fun high =>
    .ok (sliceItems (h.items ref) low high)) = .error fault ∧ _
  cases low : a.mapM (sliceBound .first) with
  | error fault => exact ⟨fault, rfl, mapM_sliceBound_eq_error low⟩
  | ok first =>
      cases high : b.mapM (sliceBound .last) with
      | error fault => exact ⟨fault, rfl, mapM_sliceBound_eq_error high⟩
      | ok last =>
          exact absurd ⟨⟨first, mapM_sliceBound_eq_ok_iff.mp low⟩,
            ⟨last, mapM_sliceBound_eq_ok_iff.mp high⟩⟩ other

/-- Integer bounds always give a slice. -/
theorem exists_slice (h : Heap) (ref : ListRef) (low : Option.Rel Value.IsInteger a first)
    (high : Option.Rel Value.IsInteger b last) :
    ∃ part, h.slice (.list ref) a b = .ok part ∧
      part.toList = window (h.items ref).toList (startOf first) (stopOf (h.items ref).size last) :=
  ⟨_, slice_eq_ok low high, toList_sliceItems _ _ _⟩

/-- **A list is cut into two slices**, up to a position and after it. -/
theorem slice_append_slice {k next : Value} {z : ℤ} (integer : k.IsInteger z)
    (integer' : next.IsInteger (z + 1)) :
    ∃ front back, h.slice (.list ref) none (some k) = .ok front ∧
      h.slice (.list ref) (some next) none = .ok back ∧ front ++ back = h.items ref := by
  obtain ⟨front, cut, elements⟩ := h.exists_slice ref .none (.some integer)
  obtain ⟨back, cut', elements'⟩ := h.exists_slice ref (.some integer') .none
  refine ⟨front, back, cut, cut', Array.toList_inj.mp ?_⟩
  have whole : stopOf (h.items ref).size none = (h.items ref).toList.length := by
    rw [Array.length_toList, stopOf, Option.getD_none]
    omega
  rw [Array.toList_append, elements, elements', whole, window, window, List.take_length]
  exact List.take_append_drop _ _

/-- A slice from a position to the same position. -/
theorem slice_single {k : Value} {z : ℤ} (integer : k.IsInteger z) :
    ∃ part, h.slice (.list ref) (some k) (some k) = .ok part ∧
      (0 ≤ z → part.toList = (h.items ref)[z.toNat]?.toList) ∧ (z < 0 → part = #[]) := by
  obtain ⟨part, cut, elements⟩ := h.exists_slice ref (.some integer) (.some integer)
  refine ⟨part, cut, fun natural => ?_, fun negative => Array.toList_inj.mp ?_⟩
  · have next : stopOf (h.items ref).size (some z) = z.toNat + 1 := by
      rw [stopOf, Option.getD_some]
      omega
    rw [elements, next, window, startOf, Option.getD_some, List.drop_take, Nat.add_sub_cancel_left,
      List.take_one, List.head?_drop, Array.getElem?_toList]
  · have none : stopOf (h.items ref).size (some z) = 0 := by
      rw [stopOf, Option.getD_some]
      omega
    rw [elements, none, window, List.take_zero, List.drop_nil]

/-- **A slice of a slice is a slice.** The first bounds may not be negative. -/
theorem slice_slice (h : Heap) (ref : ListRef) {za zb zc zd : ℤ} (natural : 0 ≤ za)
    (natural' : 0 ≤ zc)
    (first : Option.Rel Value.IsInteger a (some za)) (last : Option.Rel Value.IsInteger b (some zb))
    (first' : Option.Rel Value.IsInteger c (some zc))
    (last' : Option.Rel Value.IsInteger d (some zd)) :
    ∃ outer inner, h.slice (.list ref) a b = .ok outer ∧
      (h.newList outer).2.slice (.list (h.newList outer).1) c d = .ok inner ∧
      inner = sliceItems (h.items ref) (some (za + zc)) (some (min zb (za + zd))) := by
  obtain ⟨outer, cut, elements⟩ := h.exists_slice ref first last
  obtain ⟨inner, cut', elements'⟩ :=
    (h.newList outer).2.exists_slice (h.newList outer).1 first' last'
  refine ⟨outer, inner, cut, cut', Array.toList_inj.mp ?_⟩
  rw [elements', items_newList_self, elements, window_window, toList_sliceItems]
  simp only [startOf, stopOf, Option.getD_some]
  rw [← Int.toNat_add natural natural']
  refine window_congr fun k inside from_start => ?_
  omega

end Heap

/-! ## The elements of a slice -/

/-- **A slice has the elements at exactly the positions between its bounds**, whatever
integers those are, and it never fails. A list is a slice up to a position and the slice
after it; a slice at one position has the element that is there, if there is one; a slice
of a slice is a slice. Every bound that is no integer is refused. -/
theorem slices_select (h : Heap) (ref : ListRef) :
    (∀ a b first last, Option.Rel Value.IsInteger a first → Option.Rel Value.IsInteger b last →
      ∃ part, h.slice (.list ref) a b = .ok part ∧
        part.toList = selected (h.items ref).toList first last) ∧
    (∀ k next z, k.IsInteger z → next.IsInteger (z + 1) →
      ∃ front back, h.slice (.list ref) none (some k) = .ok front ∧
        h.slice (.list ref) (some next) none = .ok back ∧ front ++ back = h.items ref) ∧
    (∀ k z, k.IsInteger z → ∃ part, h.slice (.list ref) (some k) (some k) = .ok part ∧
      (0 ≤ z → part.toList = (h.items ref)[z.toNat]?.toList) ∧ (z < 0 → part = #[])) ∧
    (∀ a b c d za zb zc zd, a.IsInteger za → b.IsInteger zb → c.IsInteger zc → d.IsInteger zd →
      0 ≤ za → 0 ≤ zc → ∃ outer inner, h.slice (.list ref) (some a) (some b) = .ok outer ∧
        (h.newList outer).2.slice (.list (h.newList outer).1) (some c) (some d) = .ok inner ∧
        inner.toList = selected (h.items ref).toList (some (za + zc)) (some (min zb (za + zd))) ∧
        ∀ e f, e.IsInteger (za + zc) → f.IsInteger (min zb (za + zd)) →
          h.slice (.list ref) (some e) (some f) = .ok inner) ∧
    ∀ a b bad, (a = some bad ∨ b = some bad) → (¬ ∃ z, bad.IsInteger z) →
      ∃ fault, h.slice (.list ref) a b = .error fault ∧ fault.kind = .typeMismatch := by
  refine ⟨?_, ?_, ?_, ?_, ?_⟩
  · intro a b first last low high
    obtain ⟨part, cut, elements⟩ := h.exists_slice ref low high
    exact ⟨part, cut, by rw [elements, selected_eq_window, Array.length_toList]⟩
  · exact fun k next z => Heap.slice_append_slice
  · exact fun k z => Heap.slice_single
  · intro a b c d za zb zc zd first last first' last' natural natural'
    -- both slices are windows of the list, and a window of a window is one
    obtain ⟨outer, inner, cut, cut', rfl⟩ := h.slice_slice ref natural natural'
      (.some first) (.some last) (.some first') (.some last')
    refine ⟨outer, _, cut, cut', ?_, fun e f low high => ?_⟩
    · rw [toList_sliceItems, selected_eq_window, Array.length_toList]
    · exact Heap.slice_eq_ok (.some low) (.some high)
  · intro a b bad given other
    -- a slice is refused unless both of its bounds are integers
    apply Heap.slice_eq_error
    rintro ⟨⟨first, low⟩, ⟨last, high⟩⟩
    rcases given with rfl | rfl
    · rcases low with ⟨integer⟩ | _
      exact other ⟨_, integer⟩
    · rcases high with ⟨integer⟩ | _
      exact other ⟨_, integer⟩

/-- Slices of `[null, true, false]`: from -3 to 1, the two halves around position 1, the
slice at position 1, and that slice as a slice of `[0:2]`. The number 0.5 is no bound. -/
theorem slices_select_three :
    let h := Heap.withList #[.null, .bool true, .bool false]
    let xs := Value.list ⟨0⟩
    (∃ part, h.slice xs (some (.ofFloat (-3))) (some (.ofFloat 1)) = .ok part ∧
      part.toList = [.null, .bool true]) ∧
    (∃ front back, h.slice xs none (some (.ofFloat 1)) = .ok front ∧
      h.slice xs (some (.ofFloat 2)) none = .ok back ∧
      front ++ back = #[.null, .bool true, .bool false]) ∧
    (∃ part, h.slice xs (some (.ofFloat 1)) (some (.ofFloat 1)) = .ok part ∧
      part.toList = [.bool true]) ∧
    (∃ outer inner, h.slice xs (some (.ofFloat 0)) (some (.ofFloat 2)) = .ok outer ∧
      (h.newList outer).2.slice (.list (h.newList outer).1) (some (.ofFloat 1))
        (some (.ofFloat 1)) = .ok inner ∧ inner.toList = [.bool true]) ∧
    ∃ fault, h.slice xs (some (.ofFloat 0.5)) none = .error fault ∧ fault.kind = .typeMismatch := by
  intro h xs
  have minusThree : (Value.ofFloat (-3)).IsInteger (-3) :=
    isInteger_number_iff.mpr (by decide +kernel)
  have zero : (Value.ofFloat 0).IsInteger 0 := isInteger_number_iff.mpr (by decide +kernel)
  have one : (Value.ofFloat 1).IsInteger 1 := isInteger_number_iff.mpr (by decide +kernel)
  have two : (Value.ofFloat 2).IsInteger 2 := isInteger_number_iff.mpr (by decide +kernel)
  have half : ¬ ∃ z, (Value.ofFloat 0.5).IsInteger z := by
    rintro ⟨z, integer⟩
    have none : Number.toInt? 0.5 = none := by decide +kernel
    rw [Value.ofFloat, isInteger_number_iff, none] at integer
    cases integer
  obtain ⟨elements, halves, single, inside, refused⟩ := slices_select h ⟨0⟩
  refine ⟨elements _ _ _ _ (.some minusThree) (.some one), halves _ _ _ one two, ?_, ?_,
    refused _ _ _ (.inl rfl) half⟩
  · obtain ⟨part, cut, found, -⟩ := single _ _ one
    exact ⟨part, cut, found (by decide)⟩
  · obtain ⟨outer, inner, cut, cut', found, -⟩ :=
      inside _ _ _ _ _ _ _ _ zero two one one (by decide) (by decide)
    exact ⟨outer, inner, cut, cut', found⟩

end TernLang
