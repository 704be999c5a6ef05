import Mathlib.Data.Char
import Mathlib.Data.List.Lex
import TernLang.Proofs.Eval.Bind
import TernLang.Proofs.Heap.Lists
import TernLang.Proofs.Number.Order
import TernLang.Proofs.Sorting.Stable

/-! # The method that sorts a list

**A list of numbers, a list of strings, or one with fewer than two elements is sorted in
place**, and the method returns that list: the same elements stand in it in some order,
and sorting it once more changes nothing, whether there are NaNs in it or not. Without
NaNs the elements are in order, numbers by value and strings by code points, and equal
elements are in the order in which they stood before. **Any other list is refused** and
stays as it is.

The place of a NaN among other numbers is not specified by any order, but only by the
steps of the sort; so sorting twice is settled from the steps, too.
-/

namespace TernLang

/-- The code points of a text. -/
def codePoints (s : String) : List Nat :=
  s.toList.map Char.toNat

/-- Numbers are in order by value, strings as in a dictionary, by code points. -/
inductive AtMost : Value → Value → Prop where
  | numbers {x y : Float} (i j : Nat) (le : x ≤ y) : AtMost (.number x i) (.number y j)
  | strings {s t : String} (le : codePoints s ≤ codePoints t) : AtMost (.string s) (.string t)

def Value.IsNaN (value : Value) : Prop :=
  ∃ x i, value = .number x i ∧ x.isNaN = true

/-- Only numbers, or only strings. -/
def Alike (items : List Value) : Prop :=
  (∀ item ∈ items, item.type = .number) ∨ ∀ item ∈ items, item.type = .string

/-- Only numbers, only strings, or fewer than two elements. -/
def Sortable (items : List Value) : Prop :=
  items.length ≤ 1 ∨ Alike items

/-- The sorted elements are those at some positions, each position taken once. Unless
there are NaNs, each element is at most any later one, and where it is also at least the
later one, it stood in front of that one before. -/
def SortsTo (items sorted : List Value) : Prop :=
  ∃ positions : List (Fin items.length), positions.Perm (List.finRange items.length) ∧
    sorted = positions.map items.get ∧
    ((∀ item ∈ items, ¬ item.IsNaN) → positions.Pairwise fun i j =>
      AtMost (items.get i) (items.get j) ∧ (AtMost (items.get j) (items.get i) → i < j))

/-! ## The order of sorting -/

section Order

/-- Texts are compared by their code points. -/
theorem lt_iff_codePoints_lt {s t : String} : s < t ↔ codePoints s < codePoints t :=
  have increasing : StrictMono fun text : List Char => text.map Char.toNat :=
    fun _ _ lt => List.map_lt (fun _ _ lt => lt) lt
  (increasing.lt_iff_lt (a := s.toList)).symm

/-- Of two values, at most one is sorted before the other. -/
theorem sortsBefore_asymm (v w : Value) (before : sortsBefore v w = true) :
    sortsBefore w v = false := by
  cases v <;> cases w <;> try cases before
  case number.number =>
    exact decide_eq_false (Number.not_lt_of_lt (of_decide_eq_true before))
  case string.string =>
    have lt := of_decide_eq_true before
    rw [lt_iff_codePoints_lt] at lt
    exact decide_eq_false fun lt' => lt.asymm (lt_iff_codePoints_lt.mp lt')

theorem atMost_number_iff {x y : Float} {i j : Nat} :
    AtMost (.number x i) (.number y j) ↔ x ≤ y :=
  ⟨fun | .numbers _ _ le => le, .numbers i j⟩

theorem atMost_string_iff {s t : String} :
    AtMost (.string s) (.string t) ↔ codePoints s ≤ codePoints t :=
  ⟨fun | .strings le => le, .strings⟩

/-- Two numbers that are no NaNs, or two strings. -/
def Comparable (v w : Value) : Prop :=
  v.type = w.type ∧ (v.type = .number ∨ v.type = .string) ∧ ¬ v.IsNaN ∧ ¬ w.IsNaN

theorem isNaN_of_not_isNaN {x : Float} {i : Nat} (number : ¬ (Value.number x i).IsNaN) :
    x.isNaN = false :=
  Bool.eq_false_iff.mpr fun nan => number ⟨x, i, rfl, nan⟩

/-- What is not sorted after another value is at most that value. -/
theorem sortsBefore_eq_false_iff {v w : Value} (comparable : Comparable v w) :
    sortsBefore w v = false ↔ AtMost v w := by
  obtain ⟨same, sort, number, number'⟩ := comparable
  cases v with
  | number x i =>
      cases w <;> cases same
      rw [atMost_number_iff, ← Number.not_lt_iff_le (isNaN_of_not_isNaN number)
        (isNaN_of_not_isNaN number')]
      exact decide_eq_false_iff_not
  | string s =>
      cases w <;> cases same
      rw [atMost_string_iff, ← not_lt, ← lt_iff_codePoints_lt]
      exact decide_eq_false_iff_not
  | null | bool | list | function | native => rcases sort with sort | sort <;> cases sort

/-- The order is transitive, also with NaNs around. -/
theorem AtMost.trans {u v w : Value} (first : AtMost u v) (second : AtMost v w) : AtMost u w := by
  cases first with
  | numbers i j le =>
      cases second with
      | numbers j k le' => exact .numbers i k (Number.le_trans le le')
  | strings le =>
      cases second with
      | strings le' => exact .strings (le.trans le')

end Order

/-! ## Sorting the elements -/

/-- **The sort gives the elements in order**, as far as they are in an order. -/
theorem sortsTo_sort {items : List Value} (alike : Alike items) :
    SortsTo items (Sorting.sort sortsBefore items) := by
  refine ⟨Sorting.positions sortsBefore items, Sorting.positions_perm _ _,
    Sorting.sort_eq_map_positions _ _, fun numbers => ?_⟩
  have comparable : ∀ i j, Comparable (items.get i) (items.get j) := by
    intro i j
    have number := numbers _ (items.get_mem i)
    have number' := numbers _ (items.get_mem j)
    rcases alike with alike | alike
    · exact ⟨(alike _ (items.get_mem i)).trans (alike _ (items.get_mem j)).symm,
        .inl (alike _ (items.get_mem i)), number, number'⟩
    · exact ⟨(alike _ (items.get_mem i)).trans (alike _ (items.get_mem j)).symm,
        .inr (alike _ (items.get_mem i)), number, number'⟩
  have ordered : (Sorting.positions sortsBefore items).Pairwise (Sorting.InFront sortsBefore items) := by
    refine Sorting.positions_pairwise sortsBefore_asymm fun i j k first second => ?_
    rw [sortsBefore_eq_false_iff (comparable _ _)] at first second ⊢
    exact first.trans second
  refine ordered.imp fun {i j} inFront => ⟨?_, fun atMost => ?_⟩
  · exact (sortsBefore_eq_false_iff (comparable i j)).mp inFront.notAfter
  · exact inFront.stable ((sortsBefore_eq_false_iff (comparable j i)).mpr atMost)

/-- A list of fewer than two elements is in order. -/
theorem sortsTo_self {items : List Value} (few : items.length ≤ 1) : SortsTo items items := by
  refine ⟨List.finRange items.length, .refl _, ?_, fun _ => ?_⟩
  · rw [← List.ofFn_eq_map, List.ofFn_get]
  · refine (List.pairwise_lt_finRange _).imp fun {i j} lt => ?_
    have := i.isLt
    have := j.isLt
    omega

/-- Sorting keeps the elements alike. -/
theorem Alike.sort {items : List Value} (alike : Alike items) :
    Alike (Sorting.sort sortsBefore items) :=
  have mem_iff {item : Value} := (Sorting.sort_perm sortsBefore items).mem_iff (a := item)
  alike.imp (fun same item mem => same item (mem_iff.mp mem))
    fun same item mem => same item (mem_iff.mp mem)

section Types

variable {items : Array Value}

/-- A type is listed if some element has it. -/
theorem mem_elementTypes {type : TypeName} :
    type ∈ elementTypes items ↔ ∃ item ∈ items, item.type = type := by
  have listed : type ∈ [TypeName.bool, .function, .list, .native, .null, .number, .string] := by
    cases type <;> decide
  rw [elementTypes, List.mem_filter, Array.any_eq_true']
  simp only [beq_iff_eq]
  exact and_iff_right listed

/-- If all elements are of one kind, then that kind is found, and no other. -/
theorem elementTypes_eq_singleton {type : TypeName} (some : 0 < items.size)
    (same : ∀ item ∈ items.toList, item.type = type) : elementTypes items = [type] := by
  have found : ∀ other, items.any (·.type == other) = (type == other) := by
    intro other
    rw [Bool.eq_iff_iff, Array.any_eq_true', beq_iff_eq]
    constructor
    · rintro ⟨item, mem, is⟩
      rw [← same item (Array.mem_toList_iff.mpr mem)]
      exact eq_of_beq is
    · rintro rfl
      have mem := Array.getElem_mem some
      exact ⟨items[0], mem, beq_iff_eq.mpr (same _ (Array.mem_toList_iff.mpr mem))⟩
  unfold elementTypes
  simp only [found]
  cases type <;> rfl

/-- A list of numbers, or of strings, is sorted. -/
theorem sortItems_of_alike (alike : Alike items.toList) :
    sortItems items = .ok (Sorting.sort sortsBefore items.toList).toArray := by
  unfold sortItems
  by_cases few : items.size ≤ 1
  · have chained : items.toList.IsChain fun v w => sortsBefore w v = false := by
      rw [← Array.length_toList] at few
      match items.toList, few with
      | [], _ => exact .nil
      | [_], _ => exact .singleton _
    rw [if_pos few, Sorting.sort_of_isChain chained, Array.toArray_toList]
  · rw [if_neg few]
    rcases alike with same | same <;> rw [elementTypes_eq_singleton (by omega) same]

/-- A list of two or more elements that are neither all numbers nor all strings is
refused. -/
theorem sortItems_of_not_sortable (not : ¬ Sortable items.toList) :
    ∃ types, sortItems items = .error (.notSortable types) := by
  simp only [Sortable, Alike, not_or, Array.length_toList] at not
  obtain ⟨many, notNumbers, notStrings⟩ := not
  have all_of_singleton {type : TypeName} (types : elementTypes items = [type]) :
      ∀ item ∈ items.toList, item.type = type := by
    intro item mem
    have found := mem_elementTypes.mpr ⟨item, Array.mem_toList_iff.mp mem, rfl⟩
    rw [types] at found
    exact List.mem_singleton.mp found
  unfold sortItems
  rw [if_neg many]
  split
  · rename_i types
    exact absurd (all_of_singleton types) notNumbers
  · rename_i types
    exact absurd (all_of_singleton types) notStrings
  · exact ⟨_, rfl⟩

/-- **What is compared is alike**: the list is sorted the same by every test that gives the
same answers for two numbers and for two texts, whatever it says of other values. -/
theorem sortItems_compares_alike {sorted : Array Value} (sorts : sortItems items = .ok sorted)
    {less : Value → Value → Bool} (same : ∀ v w, Alike [v, w] → less v w = sortsBefore v w) :
    sorted.toList = Sorting.sort less items.toList := by
  by_cases sortable : Sortable items.toList
  · rcases sortable with few | alike
    · have chained : items.toList.IsChain fun v w => less w v = false := by
        match items.toList, few with
        | [], _ => exact .nil
        | [_], _ => exact .singleton _
      rw [sortItems, if_pos (by rwa [Array.length_toList] at few)] at sorts
      cases sorts
      rw [Sorting.sort_of_isChain chained]
    · rw [sortItems_of_alike alike] at sorts
      cases sorts
      have related : List.Forall₂ (fun v w => v = w ∧ v ∈ items.toList) items.toList
          items.toList := List.forall₂_same.mpr fun _ mem => ⟨rfl, mem⟩
      have sorted : List.Forall₂ (fun v w => v = w ∧ v ∈ items.toList)
          (Sorting.sort sortsBefore items.toList) (Sorting.sort less items.toList) := by
        refine Sorting.sort_related ?_ related
        rintro v _ w _ ⟨rfl, mem⟩ ⟨rfl, mem'⟩
        refine same v w (alike.imp ?_ ?_)
        · intro numbers
          simp [numbers v mem, numbers w mem']
        · intro strings
          simp [strings v mem, strings w mem']
      simpa [List.forall₂_eq_eq_eq] using sorted.imp fun _ _ related => related.1
  · obtain ⟨types, refused⟩ := sortItems_of_not_sortable sortable
    rw [refused] at sorts
    cases sorts

/-- **What can be sorted is sorted**, and then it stays as it is. -/
theorem sortItems_of_sortable (sortable : Sortable items.toList) :
    ∃ sorted, sortItems items = .ok sorted ∧ SortsTo items.toList sorted.toList ∧
      sortItems sorted = .ok sorted := by
  rcases sortable with few | alike
  · have same : sortItems items = .ok items := if_pos few
    exact ⟨items, same, sortsTo_self few, same⟩
  · refine ⟨_, sortItems_of_alike alike, sortsTo_sort alike, ?_⟩
    have alike' : Alike (Sorting.sort sortsBefore items.toList).toArray.toList := alike.sort
    rw [sortItems_of_alike alike', List.toList_toArray, Sorting.sort_sort sortsBefore_asymm]

end Types

/-! ## The method -/

section Method

variable {h : Heap} {ref : ListRef}

/-- There are as many elements as before. -/
theorem SortsTo.length_eq {items sorted : List Value} (sorts : SortsTo items sorted) :
    sorted.length = items.length := by
  obtain ⟨positions, perm, rfl, -⟩ := sorts
  rw [List.length_map, perm.length_eq, List.length_finRange]

variable (room identity : Nat) (machine : Machine)

theorem callNative_sort_of_ok {sorted : Array Value}
    (sorts : sortItems (machine.heap.items ref) = .ok sorted) :
    Eval.callNative room (.method .sort ref identity) [] machine =
      .ok (.list ref) { machine with heap := machine.heap.modifyItems ref fun _ => sorted } := by
  have effect : machine.heap.methodEffect room .sort ref [] = .ok (.list ref, fun _ => sorted) := by
    rw [Heap.methodEffect, sorts]
  have found : Eval.query (·.methodEffect room .sort ref []) machine =
      .ok (.list ref, fun _ => sorted) machine := by
    rw [Eval.query, effect]
  unfold Eval.callNative
  rw [if_neg fun different => different rfl]
  exact (Eval.bind_run_ok found).trans rfl

/-- Where the elements stay as they are, so does the machine. -/
theorem callNative_sort_of_self
    (sorts : sortItems (machine.heap.items ref) = .ok (machine.heap.items ref)) :
    Eval.callNative room (.method .sort ref identity) [] machine = .ok (.list ref) machine := by
  rw [callNative_sort_of_ok room identity machine sorts, modifyItems_self]

theorem callNative_sort_of_error {fault : Fault}
    (refused : sortItems (machine.heap.items ref) = .error fault) :
    Eval.callNative room (.method .sort ref identity) [] machine =
      .error (.ofFault fault) machine := by
  have effect : machine.heap.methodEffect room .sort ref [] = .error (.ofFault fault) := by
    rw [Heap.methodEffect, refused]
  have found : Eval.query (·.methodEffect room .sort ref []) machine =
      .error (.ofFault fault) machine := by
    rw [Eval.query, effect]
  unfold Eval.callNative
  rw [if_neg fun different => different rfl]
  exact Eval.bind_run_error found

end Method

/-! ## Sorting in place -/

/-- **A list that can be sorted is sorted in place, once and for all; any other list is
refused and unchanged.** Nothing else in the machine changes. -/
theorem sort_in_place (room identity : Nat) (ref : ListRef) (machine : Machine) :
    (Sortable (machine.heap.items ref).toList →
      ∃ after, Eval.callNative room (.method .sort ref identity) [] machine =
          .ok (.list ref) after ∧
        SortsTo (machine.heap.items ref).toList (after.heap.items ref).toList ∧
        after = { machine with
          heap := machine.heap.modifyItems ref fun _ => after.heap.items ref } ∧
        ∀ room' identity', Eval.callNative room' (.method .sort ref identity') [] after =
          .ok (.list ref) after) ∧
      (¬ Sortable (machine.heap.items ref).toList →
        ∃ fault, fault.kind = .typeMismatch ∧
          Eval.callNative room (.method .sort ref identity) [] machine =
            .error (.ofFault fault) machine) := by
  constructor
  · intro sortable
    obtain ⟨sorted, sorts, inOrder, again⟩ := sortItems_of_sortable sortable
    have place : ref.id < machine.heap.lists.size ∨ sorted = #[] := by
      by_cases inside : ref.id < machine.heap.lists.size
      · exact .inl inside
      · have length := inOrder.length_eq
        rw [items_eq_empty inside] at length
        exact .inr (Array.eq_empty_of_size_eq_zero length)
    have left : (machine.heap.modifyItems ref fun _ => sorted).items ref = sorted :=
      items_modifyItems place
    refine ⟨⟨machine.heap.modifyItems ref fun _ => sorted, machine.output, machine.callDepth⟩,
      callNative_sort_of_ok room identity machine sorts, ?_, ?_, fun room' identity' => ?_⟩
    · rwa [left]
    · rw [left]
    · exact callNative_sort_of_self room' identity' _ (by rw [left, again])
  · intro not
    obtain ⟨types, refused⟩ := sortItems_of_not_sortable not
    exact ⟨_, rfl, callNative_sort_of_error room identity machine refused⟩

def Machine.withList (items : Array Value) : Machine :=
  ⟨{ Heap.empty with lists := #[items] }, #[], 0⟩

/-- A one and the two zeros are sorted, a number and a text are not. -/
theorem sort_in_place_of_zeros :
    (∃ after, Eval.callNative 0 (.method .sort ⟨0⟩ 1) []
        (Machine.withList #[.ofFloat 1, .ofFloat 0, .ofFloat (-0)]) = .ok (.list ⟨0⟩) after ∧
      SortsTo [.ofFloat 1, .ofFloat 0, .ofFloat (-0)] (after.heap.items ⟨0⟩).toList) ∧
    ∃ fault, fault.kind = .typeMismatch ∧
      Eval.callNative 0 (.method .sort ⟨0⟩ 1) [] (Machine.withList #[.ofFloat 1, .string "a"]) =
        .error (.ofFault fault) (Machine.withList #[.ofFloat 1, .string "a"]) := by
  have sortable : Sortable [.ofFloat 1, .ofFloat 0, .ofFloat (-0)] := by
    simp [Sortable, Alike, Value.ofFloat, Value.type]
  have mixed : ¬ Sortable [.ofFloat 1, .string "a"] := by
    simp [Sortable, Alike, Value.ofFloat, Value.type]
  obtain ⟨after, sorts, inOrder, -, -⟩ := (sort_in_place 0 1 ⟨0⟩
    (Machine.withList #[.ofFloat 1, .ofFloat 0, .ofFloat (-0)])).1 sortable
  exact ⟨⟨after, sorts, inOrder⟩,
    (sort_in_place 0 1 ⟨0⟩ (Machine.withList #[.ofFloat 1, .string "a"])).2 mixed⟩

end TernLang
