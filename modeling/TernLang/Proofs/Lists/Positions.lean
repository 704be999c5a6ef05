import TernLang.Proofs.Equality
import TernLang.Proofs.Heap.Lists
import TernLang.Proofs.Lists.Bounds

/-! # Positions of elements

How the operations that take or give positions fit together (`positions_of_elements`).
`insertAt` accepts the positions up to the length of the list, `remove` and indexing those
below it. What one of `insertAt` and `remove`, or of `push` and `pop`, does to a list is
undone by the other, and the heap is as before. `index` gives the position of the first
element that is equal to a value, and a value that was pushed is always found: equality
holds of a value and itself, also of a NaN.
-/

namespace TernLang

/-- A call accepts as its position exactly the integers from zero to below a limit. Anything
else is refused, as out of range if it is a number. -/
def AcceptsBelow {ε α : Type} (limit : Nat) (ofFault : Fault → ε) (call : Value → Except ε α) :
    Prop :=
  ∀ value, ((∃ result, call value = .ok result) ↔ ∃ k : Nat, value.IsInteger k ∧ k < limit) ∧
    ((¬ ∃ k : Nat, value.IsInteger k ∧ k < limit) →
      ∃ fault, call value = .error (ofFault fault) ∧ fault.kind = value.positionFault)

/-- The elements are those of `old` with a value at position `k` between them. -/
def Inserted (old new : Array Value) (k : Nat) (value : Value) : Prop :=
  ∀ m : Nat, new[m]? = if m < k then old[m]? else if m = k then some value else old[m - 1]?

/-- `found` is the position of the first element that is equal to a value, if there is one,
and all comparisons up to there give an answer. -/
def Heap.FirstEqual (h : Heap) (room : Nat) (value : Value) (items : List Value) :
    (found : Option Nat) → Prop
  | some k => (∃ item, items[k]? = some item ∧ h.equal room item value = some true) ∧
      ∀ j < k, ∀ item, items[j]? = some item → h.equal room item value = some false
  | none => ∀ item ∈ items, h.equal room item value = some false

/-! ## Changes of an array -/

section Arrays

variable {items : Array Value} {k : Nat} {value : Value}

/-- Inserting in range puts the value at its index, with the elements around it in order. -/
theorem inserted_insertIdxIfInBounds (inside : k ≤ items.size) :
    Inserted items (items.insertIdxIfInBounds k value) k value := by
  intro m
  rw [Array.insertIdxIfInBounds, dif_pos inside, Array.getElem?_insertIdx]
  split
  · rfl
  · split
    · rename_i here
      rw [if_pos (here ▸ inside)]
    · rfl

/-- Removing what was just inserted gives the list back. -/
theorem eraseIdx_insertIdx (inside : k ≤ items.size) :
    (items.insertIdxIfInBounds k value).eraseIdxIfInBounds k = items := by
  rw [Array.insertIdxIfInBounds, dif_pos inside, Array.eraseIdxIfInBounds,
    dif_pos (by rw [Array.size_insertIdx]; omega)]
  apply Array.toList_inj.mp
  rw [Array.toList_eraseIdx, Array.toList_insertIdx, List.eraseIdx_insertIdx_self]

/-- Inserting what was just removed gives the list back. -/
theorem insertIdx_eraseIdx (found : items[k]? = some value) :
    (items.eraseIdxIfInBounds k).insertIdxIfInBounds k value = items := by
  obtain ⟨inside, rfl⟩ := Array.getElem?_eq_some_iff.mp found
  rw [Array.eraseIdxIfInBounds, dif_pos inside, Array.insertIdxIfInBounds,
    dif_pos (by rw [Array.size_eraseIdx]; omega)]
  apply Array.toList_inj.mp
  rw [Array.toList_insertIdx, Array.toList_eraseIdx, ← Array.getElem_toList inside,
    List.insertIdx_eraseIdx_getElem]

/-- To insert behind the last element is to push. -/
theorem insertIdx_size (items : Array Value) (value : Value) :
    items.insertIdxIfInBounds items.size value = items.push value := by
  rw [Array.insertIdxIfInBounds, dif_pos (Nat.le_refl _)]
  apply Array.toList_inj.mp
  rw [Array.toList_insertIdx, Array.toList_push, ← Array.length_toList, List.insertIdx_length_self]

theorem push_back_pop (last : items.back? = some value) : items.pop.push value = items := by
  obtain ⟨rest, rfl⟩ := Array.back?_eq_some_iff.mp last
  rw [Array.pop_push]

end Arrays

namespace Heap

variable {h : Heap} {ref : ListRef} {room k : Nat} {index value : Value}

/-! ## Calls with a position -/

/-- A call that takes its position by `positionBelow` accepts the positions below the limit. -/
theorem acceptsBelow_of_positionBelow {ε α : Type} {limit : Nat} {ofFault : Fault → ε}
    {call : Value → Except ε α} (use : PositionUse) (length : Nat)
    (accepted : ∀ i k, positionBelow use limit length i = .ok k → ∃ result, call i = .ok result)
    (refused : ∀ i fault, positionBelow use limit length i = .error fault →
      call i = .error (ofFault fault)) : AcceptsBelow limit ofFault call := by
  intro i
  have outside (none : ¬ ∃ k : Nat, i.IsInteger k ∧ k < limit) :
      ∃ fault, call i = .error (ofFault fault) ∧ fault.kind = i.positionFault := by
    obtain ⟨fault, error, kind⟩ := exists_positionBelow_error use length none
    exact ⟨fault, refused i fault error, kind⟩
  refine ⟨⟨?_, ?_⟩, outside⟩
  · rintro ⟨result, ok⟩
    by_contra none
    obtain ⟨fault, error, -⟩ := outside none
    rw [ok] at error
    cases error
  · rintro ⟨k, inside⟩
    exact accepted i k (positionBelow_eq_ok_iff.mpr inside)

/-- A method whose effect is known answers with its result and writes the change. -/
theorem callMethod_of_effect {method : ListMethod} {arguments : List Value} {result : Value}
    {change : Array Value → Array Value}
    (effect : h.methodEffect room method ref arguments = .ok (result, change)) :
    h.callMethod room method ref arguments = .ok (result, h.modifyItems ref change) := by
  rw [callMethod, effect]

theorem callMethod_insertAt (integer : index.IsInteger k) (inside : k ≤ (h.items ref).size) :
    h.callMethod room .insertAt ref [index, value] =
      .ok (.null, h.modifyItems ref (·.insertIdxIfInBounds k value)) := by
  apply callMethod_of_effect
  rw [methodEffect, positionBelow_eq_ok_iff.mpr ⟨integer, Nat.lt_succ_of_le inside⟩]

theorem callMethod_remove (integer : index.IsInteger k) (inside : k < (h.items ref).size) :
    h.callMethod room .remove ref [index] =
      .ok (.null, h.modifyItems ref (·.eraseIdxIfInBounds k)) := by
  apply callMethod_of_effect
  rw [methodEffect, positionBelow_eq_ok_iff.mpr ⟨integer, inside⟩]

/-- Insertion accepts the integers from zero up to the length, and refuses every other
value. -/
theorem acceptsBelow_insertAt (room : Nat) (h : Heap) (ref : ListRef) (value : Value) :
    AcceptsBelow ((h.items ref).size + 1) Stop.ofFault
      fun i => h.callMethod room .insertAt ref [i, value] := by
  refine acceptsBelow_of_positionBelow .insertion (h.items ref).size (fun i k ok => ?_)
    fun i fault error => ?_
  · obtain ⟨integer, inside⟩ := positionBelow_eq_ok_iff.mp ok
    exact ⟨_, callMethod_insertAt integer (Nat.le_of_lt_succ inside)⟩
  · rw [callMethod, methodEffect, error]

theorem acceptsBelow_remove (room : Nat) (h : Heap) (ref : ListRef) :
    AcceptsBelow (h.items ref).size Stop.ofFault fun i => h.callMethod room .remove ref [i] := by
  refine acceptsBelow_of_positionBelow .removal (h.items ref).size (fun i k ok => ?_)
    fun i fault error => ?_
  · obtain ⟨integer, inside⟩ := positionBelow_eq_ok_iff.mp ok
    exact ⟨_, callMethod_remove integer inside⟩
  · rw [callMethod, methodEffect, error]

theorem getItem_of_ok
    (ok : positionBelow .index (h.items ref).size (h.items ref).size index = .ok k) :
    h.getItem (.list ref) index = .ok ((h.items ref).getD k .null) := by
  show (positionBelow .index _ _ index >>= fun i => .ok ((h.items ref).getD i .null)) = _
  rw [ok]
  rfl

/-- Indexing accepts the integers below the length, and refuses every other value. -/
theorem acceptsBelow_getItem (h : Heap) (ref : ListRef) :
    AcceptsBelow (h.items ref).size id (h.getItem (.list ref)) := by
  refine acceptsBelow_of_positionBelow .index (h.items ref).size
    (fun i k ok => ⟨_, getItem_of_ok ok⟩) fun i fault error => ?_
  show (positionBelow .index _ _ i >>= fun i => .ok ((h.items ref).getD i .null)) = _
  rw [error]
  rfl

/-- **Indexing gives the element at the position.** -/
theorem getItem_eq_ok_iff : h.getItem (.list ref) index = .ok value ↔
    ∃ k : Nat, index.IsInteger k ∧ (h.items ref)[k]? = some value := by
  have at_position (k : Nat) (integer : index.IsInteger k) (inside : k < (h.items ref).size) :
      h.getItem (.list ref) index = .ok value ↔ (h.items ref)[k]? = some value := by
    rw [getItem_of_ok (positionBelow_eq_ok_iff.mpr ⟨integer, inside⟩),
      Array.getElem?_eq_getElem inside, Option.some_inj, Array.getD_eq_getD_getElem?,
      Array.getElem?_eq_getElem inside, Option.getD_some, Except.ok.injEq]
  constructor
  · intro ok
    obtain ⟨k, integer, inside⟩ := (acceptsBelow_getItem h ref index).1.mp ⟨_, ok⟩
    exact ⟨k, integer, (at_position k integer inside).mp ok⟩
  · rintro ⟨k, integer, found⟩
    obtain ⟨inside, -⟩ := Array.getElem?_eq_some_iff.mp found
    exact (at_position k integer inside).mpr found

/-! ## Doing and undoing -/

section Undoing

variable {result : Value} {after : Heap} (inHeap : ref.id < h.lists.size)

include inHeap

/-- **What is inserted can be removed again.** -/
theorem remove_insertAt (integer : index.IsInteger k)
    (inserts : h.callMethod room .insertAt ref [index, value] = .ok (result, after)) :
    result = .null ∧ Inserted (h.items ref) (after.items ref) k value ∧
      after.callMethod room .remove ref [index] = .ok (.null, h) := by
  obtain ⟨k', integer', below⟩ := (acceptsBelow_insertAt room h ref value index).1.mp ⟨_, inserts⟩
  obtain rfl : k' = k := Int.ofNat_inj.mp (integer'.unique integer)
  have inside := Nat.le_of_lt_succ below
  rw [callMethod_insertAt integer inside] at inserts
  cases inserts
  have items : (h.modifyItems ref (·.insertIdxIfInBounds k' value)).items ref =
      (h.items ref).insertIdxIfInBounds k' value := items_modifyItems_self inHeap
  have longer : k' < ((h.modifyItems ref (·.insertIdxIfInBounds k' value)).items ref).size := by
    rw [items, Array.insertIdxIfInBounds, dif_pos inside, Array.size_insertIdx]
    omega
  refine ⟨rfl, items ▸ inserted_insertIdxIfInBounds inside, ?_⟩
  rw [callMethod_remove integer longer, modifyItems_undo (eraseIdx_insertIdx inside)]

/-- **What is removed can be inserted again.** -/
theorem insertAt_remove (reads : h.getItem (.list ref) index = .ok value)
    (removes : h.callMethod room .remove ref [index] = .ok (result, after)) :
    result = .null ∧ after.callMethod room .insertAt ref [index, value] = .ok (.null, h) := by
  obtain ⟨k, integer, found⟩ := getItem_eq_ok_iff.mp reads
  obtain ⟨inside, -⟩ := Array.getElem?_eq_some_iff.mp found
  rw [callMethod_remove integer inside] at removes
  cases removes
  have items : (h.modifyItems ref (·.eraseIdxIfInBounds k)).items ref =
      (h.items ref).eraseIdxIfInBounds k := items_modifyItems_self inHeap
  have shorter : k ≤ ((h.modifyItems ref (·.eraseIdxIfInBounds k)).items ref).size := by
    rw [items, Array.eraseIdxIfInBounds, dif_pos inside, Array.size_eraseIdx]
    omega
  refine ⟨rfl, ?_⟩
  rw [callMethod_insertAt integer shorter, modifyItems_undo (insertIdx_eraseIdx found)]

/-- **What is pushed can be popped again.** -/
theorem pop_push (value : Value) :
    (h.modifyItems ref (·.push value)).callMethod room .pop ref [] = .ok (value, h) := by
  have items : (h.modifyItems ref (·.push value)).items ref = (h.items ref).push value :=
    items_modifyItems_self inHeap
  have effect : (h.modifyItems ref (·.push value)).methodEffect room .pop ref [] =
      .ok (value, Array.pop) := by
    rw [methodEffect, items, Array.back?_push]
  rw [callMethod_of_effect effect, modifyItems_undo Array.pop_push]

end Undoing

theorem callMethod_push (room : Nat) (h : Heap) (ref : ListRef) (value : Value) :
    h.callMethod room .push ref [value] = .ok (.null, h.modifyItems ref (·.push value)) :=
  callMethod_of_effect rfl

/-- Inserting behind the last element is pushing. -/
theorem insertAt_size (integer : index.IsInteger (h.items ref).size) :
    h.callMethod room .insertAt ref [index, value] = h.callMethod room .push ref [value] := by
  have same : h.modifyItems ref (·.insertIdxIfInBounds (h.items ref).size value) =
      h.modifyItems ref (·.push value) := modifyItems_congr (insertIdx_size _ _)
  rw [callMethod_insertAt integer (Nat.le_refl _), callMethod_push, same]

theorem callMethod_pop (last : (h.items ref).back? = some value) :
    h.callMethod room .pop ref [] = .ok (value, h.modifyItems ref Array.pop) := by
  apply callMethod_of_effect
  rw [methodEffect, last]

/-- **What is popped can be pushed again.** -/
theorem push_pop (last : (h.items ref).back? = some value) :
    (h.modifyItems ref Array.pop).callMethod room .push ref [value] = .ok (.null, h) := by
  rw [callMethod_push, modifyItems_undo (push_back_pop last)]

/-! ## Searching -/

section Searching

variable {start : Nat} {found : Option Nat} {items : List Value}

/-- In front of an element that is unequal, positions are greater by one. -/
theorem firstEqual_cons {item : Value} (unequal : h.equal room item value = some false) :
    h.FirstEqual room value (item :: items) (found.map (· + 1)) ↔
      h.FirstEqual room value items found := by
  cases found with
  | none => simp [FirstEqual, unequal]
  | some k =>
      refine and_congr (by simp) ⟨fun before j less => ?_, fun before j less => ?_⟩
      · exact before (j + 1) (Nat.succ_lt_succ less)
      · cases j with
        | zero =>
            rintro item ⟨⟩
            exact unequal
        | succ j => exact before j (Nat.lt_of_succ_lt_succ less)

/-- A search that comes to an end has found the first equal element. -/
theorem firstEqual_of_indexFrom (finds : h.indexFrom room value start items = .ok found) :
    ∃ first, h.FirstEqual room value items first ∧ found = first.map (start + ·) := by
  induction items generalizing start with
  | nil =>
      cases finds
      exact ⟨none, nofun, rfl⟩
  | cons item rest ih =>
      unfold indexFrom at finds
      split at finds
      · cases finds
      · rename_i equal
        cases finds
        exact ⟨some 0, ⟨⟨item, rfl, equal⟩, fun j less => absurd less (Nat.not_lt_zero j)⟩, rfl⟩
      · rename_i unequal
        obtain ⟨first, least, same⟩ := ih finds
        refine ⟨first.map (· + 1), (firstEqual_cons unequal).mpr least, ?_⟩
        rw [same, Option.map_map]
        congr 1
        funext k
        show start + 1 + k = start + (k + 1)
        omega

/-- A search whose comparisons all answer comes to an answer. -/
theorem exists_indexFrom (answers : ∀ item ∈ items, ∃ same, h.equal room item value = some same)
    (start : Nat) : ∃ found, h.indexFrom room value start items = .ok found := by
  induction items generalizing start with
  | nil => exact ⟨none, rfl⟩
  | cons item rest ih =>
      obtain ⟨same, compared⟩ := answers item List.mem_cons_self
      unfold indexFrom
      rw [compared]
      cases same with
      | true => exact ⟨_, rfl⟩
      | false => exact ih (fun item mem => answers item (List.mem_cons_of_mem _ mem)) (start + 1)

/-- The position of an element is a natural number, its absence is -1. -/
theorem isInteger_positionValue_neg_one : (positionValue found).IsInteger (-1) ↔ found = none := by
  cases found with
  | none =>
      refine iff_of_true ⟨-1, 0, rfl, ?_⟩ rfl
      rw [Number.toRat?_neg_one]
      norm_num
  | some k =>
      refine iff_of_false ?_ nofun
      rintro ⟨x, identity, ⟨⟩, exact⟩
      have nonneg := Number.toRat?_ofNat_nonneg exact
      norm_num at nonneg

theorem callMethod_index_of_ok
    (finds : h.indexFrom room value 0 (h.items ref).toList = .ok found) :
    h.callMethod room .index ref [value] = .ok (positionValue found, h) := by
  have effect : h.methodEffect room .index ref [value] = .ok (positionValue found, id) := by
    rw [methodEffect, finds]
  rw [callMethod_of_effect effect, modifyItems_of_self rfl]

/-- **`index` gives the position of the first equal element**, and changes nothing. -/
theorem callMethod_index_eq_ok {result : Value} {after : Heap}
    (ok : h.callMethod room .index ref [value] = .ok (result, after)) :
    after = h ∧ ∃ found, h.FirstEqual room value (h.items ref).toList found ∧
      result = positionValue found := by
  cases finds : h.indexFrom room value 0 (h.items ref).toList with
  | error stop =>
      rw [callMethod, methodEffect, finds] at ok
      cases ok
  | ok found =>
      rw [callMethod_index_of_ok finds] at ok
      cases ok
      obtain ⟨first, least, rfl⟩ := firstEqual_of_indexFrom finds
      refine ⟨rfl, first, least, ?_⟩
      congr 1
      cases first with
      | none => rfl
      | some k => exact congrArg some (Nat.zero_add k)

/-- With room for each pair of lists the search comes to an end. -/
theorem exists_callMethod_index (enough : h.lists.size ^ 2 < room) (ref : ListRef) (value : Value) :
    ∃ result, h.callMethod room .index ref [value] = .ok (result, h) := by
  have answers : ∀ item ∈ (h.items ref).toList, ∃ same, h.equal room item value = some same :=
    fun item _ => exists_equal enough item value
  obtain ⟨found, finds⟩ := exists_indexFrom answers 0
  exact ⟨_, callMethod_index_of_ok finds⟩

/-- An element is not missed: it is equal to itself. -/
theorem ne_none_of_mem (first : h.FirstEqual room value items found) (mem : value ∈ items) :
    found ≠ none := by
  rintro rfl
  have unequal := first value mem
  exact Bool.noConfusion ((equal_iff unequal).mpr (Bisimilar.refl value))

end Searching

end Heap

/-! ## Positions of a list -/

/-- **How the operations on positions fit together**, for every list and every value. The
positions that `insertAt`, `remove` and indexing accept; what is at the positions after an
insertion; `insertAt` and `remove`, `push` and `pop` undo each other; pushing is inserting
at the end; and `index` gives the first position of an equal element, -1 exactly if there
is none, so never after a push of the value. -/
theorem positions_of_elements (room : Nat) {h : Heap} {ref : ListRef}
    (inHeap : ref.id < h.lists.size) :
    (∀ v, AcceptsBelow ((h.items ref).size + 1) Stop.ofFault
      fun i => h.callMethod room .insertAt ref [i, v]) ∧
    AcceptsBelow (h.items ref).size Stop.ofFault (fun i => h.callMethod room .remove ref [i]) ∧
    AcceptsBelow (h.items ref).size id (h.getItem (.list ref)) ∧
    (∀ (g : Heap) i v, g.getItem (.list ref) i = .ok v ↔
      ∃ k : Nat, i.IsInteger k ∧ (g.items ref)[k]? = some v) ∧
    (∀ i v (k : Nat) result after, i.IsInteger k →
      h.callMethod room .insertAt ref [i, v] = .ok (result, after) →
      result = .null ∧ Inserted (h.items ref) (after.items ref) k v ∧
        after.callMethod room .remove ref [i] = .ok (.null, h)) ∧
    (∀ i v result after, h.getItem (.list ref) i = .ok v →
      h.callMethod room .remove ref [i] = .ok (result, after) →
      result = .null ∧ after.callMethod room .insertAt ref [i, v] = .ok (.null, h)) ∧
    (∀ v, ∃ after, h.callMethod room .push ref [v] = .ok (.null, after) ∧
      (∀ i, i.IsInteger (h.items ref).size →
        h.callMethod room .insertAt ref [i, v] = .ok (.null, after)) ∧
      after.callMethod room .pop ref [] = .ok (v, h) ∧
      (after.lists.size ^ 2 < room →
        ∃ result, after.callMethod room .index ref [v] = .ok (result, after)) ∧
      ∀ result after', after.callMethod room .index ref [v] = .ok (result, after') →
        ¬ result.IsInteger (-1)) ∧
    (∀ v, (h.items ref).back? = some v →
      ∃ after, h.callMethod room .pop ref [] = .ok (v, after) ∧
        after.items ref = (h.items ref).pop ∧
        after.callMethod room .push ref [v] = .ok (.null, h)) ∧
    ((h.items ref).back? = none → ∃ fault, fault.kind = .emptyList ∧
      h.callMethod room .pop ref [] = .error (.ofFault fault)) ∧
    (∀ v, h.lists.size ^ 2 < room →
      ∃ result, h.callMethod room .index ref [v] = .ok (result, h)) ∧
    ∀ v result after, h.callMethod room .index ref [v] = .ok (result, after) →
      after = h ∧ ∃ found, h.FirstEqual room v (h.items ref).toList found ∧
        result = Heap.positionValue found ∧ (result.IsInteger (-1) ↔ found = none) ∧
        ∀ k < 2 ^ 53, found = some k → result.IsInteger k := by
  refine ⟨h.acceptsBelow_insertAt room ref, h.acceptsBelow_remove room ref,
    h.acceptsBelow_getItem ref, fun g i v => Heap.getItem_eq_ok_iff, ?_, ?_, ?_, ?_, ?_, ?_, ?_⟩
  · exact fun i v k result after integer => Heap.remove_insertAt inHeap integer
  · exact fun i v result after => Heap.insertAt_remove inHeap
  · intro v
    -- what was pushed is the last element: it is popped, and found if nothing equal is before
    have pushes := h.callMethod_push room ref v
    refine ⟨h.modifyItems ref (·.push v), pushes, ?_, Heap.pop_push inHeap v, ?_, ?_⟩
    · exact fun i integer => (Heap.insertAt_size integer).trans pushes
    · exact fun enough => Heap.exists_callMethod_index enough ref v
    · intro result after' finds
      obtain ⟨-, found, first, rfl⟩ := Heap.callMethod_index_eq_ok finds
      rw [Heap.isInteger_positionValue_neg_one]
      -- the value is an element of the list it was pushed to
      refine Heap.ne_none_of_mem first ?_
      rw [Heap.items_modifyItems_self inHeap, Array.toList_push]
      exact List.mem_append_right _ List.mem_cons_self
  · exact fun v last => ⟨_, Heap.callMethod_pop last, Heap.items_modifyItems_self inHeap,
      Heap.push_pop last⟩
  · intro empty
    exact ⟨.popEmpty, rfl, by rw [Heap.callMethod, Heap.methodEffect, empty]⟩
  · exact fun v enough => Heap.exists_callMethod_index enough ref v
  · intro v result after finds
    obtain ⟨same, found, first, rfl⟩ := Heap.callMethod_index_eq_ok finds
    refine ⟨same, found, first, rfl, Heap.isInteger_positionValue_neg_one, ?_⟩
    rintro k short rfl
    exact isInteger_ofNat short

/-- A NaN that is pushed to a list is found there, and is popped again. -/
theorem positions_of_elements_nan :
    ∃ after, (Heap.withList #[.null]).callMethod 2 .push ⟨0⟩ [.number (0 / 0) 1] =
        .ok (.null, after) ∧
      after.callMethod 2 .pop ⟨0⟩ [] = .ok (.number (0 / 0) 1, Heap.withList #[.null]) ∧
      ∃ result, after.callMethod 2 .index ⟨0⟩ [.number (0 / 0) 1] = .ok (result, after) ∧
        ¬ result.IsInteger (-1) := by
  have inHeap : (⟨0⟩ : ListRef).id < (Heap.withList #[.null]).lists.size := by decide
  obtain ⟨-, -, -, -, -, -, push, -⟩ := positions_of_elements 2 inHeap
  obtain ⟨after, pushes, -, pops, finds, found⟩ := push (.number (0 / 0) 1)
  have enough : after.lists.size ^ 2 < 2 := by
    cases pushes
    decide
  obtain ⟨result, index⟩ := finds enough
  exact ⟨after, pushes, pops, result, index, found _ _ index⟩

end TernLang
