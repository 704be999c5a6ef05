import Mathlib.Data.List.Nodup
import Mathlib.Data.List.Perm.Subperm
import TernLang.Eval
import TernLang.Proofs.Heap.Texts

/-! # What is printed of shared and cyclic lists

Following positions from list to list, a value unfolds into a tree, which is infinite if
a list contains itself. **The printed text is the text of that tree, where an occurrence
of a list is written as `[...]` exactly if the very same list is met above it, on the
path from the root** (`Writes`, `print_unfolds`). All other occurrences are written in
full, however often a list was written before: next to it, or inside a list in front.

There is exactly one such text for each value in each heap, it is found if there is more
room than lists, and printing leaves the heap as it is.
-/

namespace TernLang

namespace Heap

/-- The value at the end of a path of positions. -/
def follow (h : Heap) : Value → List Nat → Option Value
  | value, [] => some value
  | .list ref, i :: path =>
      match (h.items ref)[i]? with
      | some value => h.follow value path
      | none => none
  | _, _ :: _ => none

/-- The list is met on the way to the end of a path. -/
def Around (h : Heap) (root : Value) (path : List Nat) (ref : ListRef) : Prop :=
  ∃ k < path.length, h.follow root (path.take k) = some (.list ref)

/-- At the end of the path, a list occurs inside itself. -/
def IsInner (h : Heap) (root : Value) (path : List Nat) : Prop :=
  ∃ ref, h.follow root path = some (.list ref) ∧ h.Around root path ref

/-- What is written for the occurrence of a value at the end of a path. -/
inductive Writes (h : Heap) (root : Value) : (path : List Nat) → (text : String) → Prop where
  | scalar {path : List Nat} {value : Value} (here : h.follow root path = some value)
      (other : value.type ≠ .list) : Writes h root path (h.renderScalar value)
  | inner {path : List Nat} (inside : h.IsInner root path) : Writes h root path innerOccurrence
  | list {path : List Nat} {ref : ListRef} {texts : List String}
      (here : h.follow root path = some (.list ref)) (outside : ¬ h.IsInner root path)
      (length : texts.length = (h.items ref).size)
      (elements : ∀ i text, texts[i]? = some text → Writes h root (path ++ [i]) text) :
      Writes h root path (bracketed texts)

/-! ## Paths -/

section Paths

variable {h : Heap} {root : Value} {path : List Nat}

/-- A path can be followed in two parts. -/
theorem follow_append (value : Value) (path rest : List Nat) :
    h.follow value (path ++ rest) = (h.follow value path).bind (h.follow · rest) := by
  induction path generalizing value with
  | nil => rfl
  | cons i path ih =>
      cases value with
      | list ref =>
          rw [List.cons_append, follow, follow]
          cases (h.items ref)[i]? with
          | none => rfl
          | some item => exact ih item
      | null | bool | number | string | function | native => rfl

/-- Behind a path to a list there is a path to each of its elements. -/
theorem follow_element {ref : ListRef} {item : Value} {i : Nat}
    (here : h.follow root path = some (.list ref)) (found : (h.items ref)[i]? = some item) :
    h.follow root (path ++ [i]) = some item := by
  rw [follow_append, here, Option.bind_some, follow, found]
  rfl

/-- On the way to an element there is what is on the way to the list, and the list. -/
theorem around_element {i : Nat} {ref : ListRef} :
    h.Around root (path ++ [i]) ref ↔
      h.Around root path ref ∨ h.follow root path = some (.list ref) := by
  constructor
  · rintro ⟨k, lt, found⟩
    rw [List.length_append, List.length_singleton] at lt
    rcases Nat.lt_or_eq_of_le (Nat.le_of_lt_succ lt) with lt | rfl
    · exact .inl ⟨k, lt, by rwa [List.take_append_of_le_length (Nat.le_of_lt lt)] at found⟩
    · exact .inr (by rwa [List.take_left] at found)
  · rintro (⟨k, lt, found⟩ | here)
    · refine ⟨k, by rw [List.length_append]; omega, ?_⟩
      rwa [List.take_append_of_le_length (Nat.le_of_lt lt)]
    · exact ⟨path.length, by simp, by rwa [List.take_left]⟩

/-- There is one text for each occurrence. -/
theorem Writes.unique {text text' : String} (writes : h.Writes root path text)
    (writes' : h.Writes root path text') : text = text' := by
  induction writes generalizing text' with
  | scalar here other =>
      cases writes' with
      | scalar here' other' => rw [Option.some_inj.mp (here.symm.trans here')]
      | inner inside =>
          obtain ⟨ref, there, -⟩ := inside
          cases here.symm.trans there
          exact absurd rfl other
      | list there =>
          cases here.symm.trans there
          exact absurd rfl other
  | inner inside =>
      cases writes' with
      | scalar here' other' =>
          obtain ⟨ref, here, -⟩ := inside
          cases here.symm.trans here'
          exact absurd rfl other'
      | inner inside' => rfl
      | list here' outside' => exact absurd inside outside'
  | list here outside length elements ih =>
      rename_i ref texts
      cases writes' with
      | scalar here' other' =>
          cases here.symm.trans here'
          exact absurd rfl other'
      | inner inside' => exact absurd inside' outside
      | list here' outside' length' elements' =>
          rename_i ref' texts'
          cases here.symm.trans here'
          -- the same list is written element by element
          refine congrArg bracketed (List.ext_getElem? fun i => ?_)
          cases found : texts[i]? with
          | none =>
              rw [List.getElem?_eq_none_iff] at found
              exact (List.getElem?_eq_none (by omega)).symm
          | some text =>
              have inside : i < texts'.length := by
                have := (List.getElem?_eq_some_iff.mp found).1
                omega
              have found' := List.getElem?_eq_getElem inside
              rw [found', ih i text found (elements' i _ found')]

end Paths

/-! ## The text is that of the unfolding -/

section Soundness

variable {h : Heap} {root : Value}

theorem getElem?_of_mapM {α β : Type} {f : α → Option β} {xs : List α} {ys : List β}
    (found : xs.mapM f = some ys) :
    ys.length = xs.length ∧
      ∀ (i : Nat) (y : β), ys[i]? = some y → ∃ x, xs[i]? = some x ∧ f x = some y := by
  induction xs generalizing ys with
  | nil =>
      cases found
      exact ⟨rfl, fun _ _ absent => nomatch absent⟩
  | cons x xs ih =>
      rw [List.mapM_cons] at found
      obtain ⟨y, first, found⟩ := Option.bind_eq_some_iff.mp found
      obtain ⟨rest, later, same⟩ := Option.bind_eq_some_iff.mp found
      cases same
      obtain ⟨length, elements⟩ := ih later
      refine ⟨congrArg (· + 1) length, fun i z here => ?_⟩
      cases i with
      | zero => exact ⟨x, rfl, by rwa [← Option.some_inj.mp here]⟩
      | succ i => exact elements i z here

/-- **The text of a value is what is written for its occurrence**, if the lists that are
active are those on the way to it. -/
theorem writes_of_textWithin {room : Nat} {active : List ListRef} {value : Value}
    {path : List Nat} {text : String} (here : h.follow root path = some value)
    (around : ∀ ref, ref ∈ active ↔ h.Around root path ref)
    (rendered : h.textWithin room active value = some text) : h.Writes root path text := by
  induction room generalizing active value path text with
  | zero => cases rendered
  | succ room ih =>
      cases value with
      | list ref =>
          by_cases mem : ref ∈ active
          · rw [textWithin_of_mem mem] at rendered
            cases rendered
            exact .inner ⟨ref, here, (around ref).mp mem⟩
          · rw [textWithin_of_notMem mem] at rendered
            obtain ⟨texts, all, rfl⟩ := Option.map_eq_some_iff.mp rendered
            obtain ⟨length, elements⟩ := getElem?_of_mapM all
            have outside : ¬ h.IsInner root path := by
              rintro ⟨ref', here', met⟩
              cases here.symm.trans here'
              exact mem ((around ref).mpr met)
            refine .list here outside length fun i text found => ?_
            obtain ⟨item, at', rendered⟩ := elements i text found
            rw [Array.getElem?_toList] at at'
            refine ih (follow_element here at') (fun ref' => ?_) rendered
            rw [List.mem_cons, around, around_element, here, Option.some_inj, Value.list.injEq,
              eq_comm, or_comm]
      | null | bool | number | string | function | native =>
          cases rendered
          exact .scalar here nofun

end Soundness

/-! ## There is a text -/

section Termination

variable {h : Heap}

theorem isSome_mapM {α β : Type} {f : α → Option β} {xs : List α}
    (all : ∀ x ∈ xs, ∃ y, f x = some y) : ∃ ys, xs.mapM f = some ys := by
  induction xs with
  | nil => exact ⟨[], rfl⟩
  | cons x xs ih =>
      obtain ⟨y, first⟩ := all x List.mem_cons_self
      obtain ⟨ys, later⟩ := ih fun x mem => all x (List.mem_cons_of_mem _ mem)
      exact ⟨y :: ys, by rw [List.mapM_cons, first, Option.bind_eq_bind, Option.bind_some, later]; rfl⟩

/-- There are no more distinct lists than lists. -/
theorem length_le_of_nodup {active : List ListRef} (distinct : active.Nodup)
    (inUse : ∀ ref ∈ active, ref.id < h.lists.size) : active.length ≤ h.lists.size := by
  have ids : (active.map ListRef.id).Nodup :=
    List.Nodup.map (fun ⟨_⟩ ⟨_⟩ same => congrArg ListRef.mk same) distinct
  have subset : active.map ListRef.id ⊆ List.range h.lists.size := by
    intro id mem
    obtain ⟨ref, held, rfl⟩ := List.mem_map.mp mem
    exact List.mem_range.mpr (inUse ref held)
  simpa using (ids.subperm subset).length_le

/-- **A value has a text** if there is more room than lists that are not active: each
level of nesting makes one more of them active. -/
theorem exists_textWithin {room : Nat} {active : List ListRef} (value : Value)
    (distinct : active.Nodup) (inUse : ∀ ref ∈ active, ref.id < h.lists.size)
    (enough : h.lists.size - active.length < room) :
    ∃ text, h.textWithin room active value = some text := by
  induction room generalizing active value with
  | zero => exact absurd enough (Nat.not_lt_zero _)
  | succ room ih =>
      cases value with
      | list ref =>
          by_cases mem : ref ∈ active
          · exact ⟨_, textWithin_of_mem mem⟩
          rw [textWithin_of_notMem mem]
          by_cases used : ref.id < h.lists.size
          · have distinct : (ref :: active).Nodup := List.nodup_cons.mpr ⟨mem, distinct⟩
            have inUse : ∀ ref' ∈ ref :: active, ref'.id < h.lists.size :=
              List.forall_mem_cons.mpr ⟨used, inUse⟩
            have le := length_le_of_nodup distinct inUse
            rw [List.length_cons] at le
            obtain ⟨texts, all⟩ := isSome_mapM fun item _ =>
              ih item distinct inUse (by rw [List.length_cons]; omega)
            exact ⟨_, Option.map_eq_some_iff.mpr ⟨texts, all, rfl⟩⟩
          · -- a place that no list is at stands for no elements
            rw [items, Array.getElem?_eq_none (Nat.le_of_not_lt used)]
            exact ⟨_, rfl⟩
      | null | bool | number | string | function | native => exact ⟨_, rfl⟩

/-- With room for every list, each value has a text. -/
theorem exists_render {room : Nat} (value : Value) (enough : h.lists.size < room) :
    ∃ text, h.render room value = some text := by
  rw [render_eq]
  exact exists_textWithin value .nil (fun _ mem => absurd mem List.not_mem_nil) enough

/-- The text of a value is the one of its unfolding. -/
theorem writes_of_render {room : Nat} {value : Value} {text : String}
    (rendered : h.render room value = some text) : h.Writes value [] text := by
  rw [render_eq] at rendered
  refine writes_of_textWithin rfl (fun ref => ?_) rendered
  exact iff_of_false List.not_mem_nil fun ⟨k, lt, _⟩ => absurd lt (Nat.not_lt_zero k)

end Termination

end Heap

/-! ## Printing -/

/-- **A value is printed as the text of its unfolding**, where exactly the occurrences of
a list inside itself are written as `[...]`. -/
theorem print_unfolds (machine : Machine) (value : Value) :
    ∃ text, (∀ text', machine.heap.Writes value [] text' ↔ text' = text) ∧
      (∀ room, machine.heap.lists.size < room → machine.heap.render room value = some text) ∧
      ∀ room, Eval.print room value machine =
          .ok () { machine with output := machine.output.push text } ∨
        machine.heap.render room value = none ∧
          Eval.print room value machine = .error .tooDeep machine := by
  obtain ⟨text, rendered⟩ := Heap.exists_render (h := machine.heap) value (Nat.lt_succ_self _)
  have writes := Heap.writes_of_render rendered
  have unique {room : Nat} {text' : String}
      (rendered' : machine.heap.render room value = some text') : text' = text :=
    (Heap.writes_of_render rendered').unique writes
  refine ⟨text, fun text' => ⟨fun writes' => writes'.unique writes, fun same => same ▸ writes⟩,
    fun room enough => ?_, fun room => ?_⟩
  · obtain ⟨text', rendered'⟩ := Heap.exists_render value enough
    rw [rendered', unique rendered']
  · unfold Eval.print
    cases rendered' : machine.heap.render room value with
    | none => exact .inr ⟨rfl, rfl⟩
    | some text' => exact .inl (by rw [unique rendered'])

/-- The first list holds the second one twice, and then itself. -/
example : Heap.render { Heap.empty with
    lists := #[#[.list ⟨1⟩, .list ⟨1⟩, .list ⟨0⟩], #[.string "a"]] } 3 (.list ⟨0⟩) =
      some "[[a], [a], [...]]" := by rfl

end TernLang
