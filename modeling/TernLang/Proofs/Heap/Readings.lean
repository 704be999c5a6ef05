import TernLang.Operator
import TernLang.Proofs.Heap.Texts

/-! # What readings of the heap depend on

Names are looked up in the scopes alone, values are compared by the lists alone,
and a text needs the lists and the names of functions. Two heaps that agree on
these parts give the same answers.

Comparing and printing take room. **More room changes no answer**
(`equal_extra_room`, `render_extra_room`): it can only give one where there was
none.
-/

namespace TernLang.Heap

variable {h h' : Heap}

/-! ## Names -/

theorem findWithin_congr (same : h'.scopes = h.scopes) (name : String) (fuel : Nat)
    (ref : ScopeRef) : h'.findWithin name fuel ref = h.findWithin name fuel ref := by
  induction fuel generalizing ref with
  | zero => rfl
  | succ fuel ih =>
      unfold findWithin
      rw [same]
      simp only [ih]

/-- Looking a name up reads the scopes only. -/
theorem lookup_congr (same : h'.scopes = h.scopes) (ref : ScopeRef) (name : String) :
    h'.lookup ref name = h.lookup ref name := by
  unfold lookup find ownBinding
  rw [findWithin_congr same, same]

theorem owner_congr (same : h'.scopes = h.scopes) (ref : ScopeRef) (name : String) :
    h'.owner ref name = h.owner ref name := by
  unfold owner find
  rw [findWithin_congr same]

/-! ## Lists -/

theorem items_congr (same : h'.lists = h.lists) (ref : ListRef) : h'.items ref = h.items ref := by
  unfold items
  rw [same]

theorem getItem_congr (same : h'.lists = h.lists) (target index : Value) :
    h'.getItem target index = h.getItem target index := by
  unfold getItem
  simp only [items_congr same]

theorem slice_congr (same : h'.lists = h.lists) (target : Value) (first last : Option Value) :
    h'.slice target first last = h.slice target first last := by
  unfold slice
  simp only [items_congr same]

theorem equalWith_congr (same : h'.lists = h.lists) (room : Nat) (seen : ListPairs) (a b : Value) :
    h'.equalWith room seen a b = h.equalWith room seen a b := by
  induction room generalizing seen a b with
  | zero => rfl
  | succ room ih =>
      have inner : h'.equalWith room = h.equalWith room := by
        funext seen a b
        exact ih seen a b
      unfold equalWith
      simp only [items_congr same, inner]

/-- Comparing reads the lists only. -/
theorem equal_congr (same : h'.lists = h.lists) (room : Nat) (a b : Value) :
    h'.equal room a b = h.equal room a b := by
  unfold equal
  rw [equalWith_congr same]

theorem indexFrom_congr (same : h'.lists = h.lists) (room : Nat) (target : Value) (start : Nat)
    (values : List Value) :
    h'.indexFrom room target start values = h.indexFrom room target start values := by
  induction values generalizing start with
  | nil => rfl
  | cons item rest ih =>
      unfold indexFrom
      rw [equal_congr same, ih]

theorem methodEffect_congr (same : h'.lists = h.lists) (room : Nat) (method : ListMethod)
    (ref : ListRef) (arguments : List Value) :
    h'.methodEffect room method ref arguments = h.methodEffect room method ref arguments := by
  unfold methodEffect
  simp only [items_congr same, indexFrom_congr same]

theorem binary_congr (same : h'.lists = h.lists) (room : Nat) (op : BinaryOp)
    (left right : Value) : h'.binary room op left right = h.binary room op left right := by
  unfold binary
  simp only [equal_congr same]

/-! ## Texts -/

/-- Text depends on the lists and on the names of functions, on nothing else. -/
theorem textWithin_congr (same : h'.lists = h.lists)
    (named : ∀ ref, h'.functionName ref = h.functionName ref) (room : Nat)
    (active : List ListRef) (value : Value) :
    h'.textWithin room active value = h.textWithin room active value := by
  have scalar : ∀ value, h'.renderScalar value = h.renderScalar value := by
    intro value
    cases value <;> simp [renderScalar, named]
  induction room generalizing active value with
  | zero => rfl
  | succ room ih =>
      have inner : ∀ active, h'.textWithin room active = h.textWithin room active := by
        intro active
        funext value
        exact ih active value
      cases value <;> simp [textWithin, items_congr same, inner, scalar]

theorem render_congr (same : h'.lists = h.lists)
    (named : ∀ ref, h'.functionName ref = h.functionName ref) (room : Nat) (value : Value) :
    h'.render room value = h.render room value := by
  rw [render_eq, render_eq, textWithin_congr same named]

/-! ## More room -/

/-- Comparing elements one by one keeps its answer when every comparison keeps its own. -/
theorem allEqual_mono {compare compare' : ListPairs → Value → Value → Option (Bool × ListPairs)}
    (more : ∀ seen a b result, compare seen a b = some result → compare' seen a b = some result)
    (pairs : List (Value × Value)) (seen : ListPairs) {result : Bool × ListPairs}
    (found : allEqual compare seen pairs = some result) :
    allEqual compare' seen pairs = some result := by
  induction pairs generalizing seen with
  | nil => exact found
  | cons pair rest ih =>
      obtain ⟨x, y⟩ := pair
      unfold allEqual at found ⊢
      cases first : compare seen x y with
      | none => simp [first] at found
      | some outcome =>
          obtain ⟨same, seen'⟩ := outcome
          rw [more seen x y _ first]
          simp only [first] at found
          cases same with
          | false => exact found
          | true => exact ih seen' found

/-- Comparing two lists. -/
theorem equalWith_lists (room : Nat) (seen : ListPairs) (p q : ListRef) :
    h.equalWith (room + 1) seen (.list p) (.list q) =
      if p = q then some (true, seen)
      else if (h.items p).size ≠ (h.items q).size then some (false, seen)
      else if seen.contains (p, q) then some (true, seen)
      else allEqual (h.equalWith room) ((p, q) :: seen)
        ((h.items p).toList.zip (h.items q).toList) := rfl

/-- More room does not change a comparison that has come to an answer. -/
theorem equalWith_extra_room (extra room : Nat) (seen : ListPairs) (a b : Value)
    {result : Bool × ListPairs} (found : h.equalWith room seen a b = some result) :
    h.equalWith (extra + room) seen a b = some result := by
  induction room generalizing seen a b result with
  | zero => cases found
  | succ room ih =>
      have inner : ∀ seen a b result, h.equalWith room seen a b = some result →
          h.equalWith (extra + room) seen a b = some result := by
        intro seen a b result found
        exact ih seen a b found
      rw [← Nat.add_assoc]
      by_cases lists : ∃ p q, a = .list p ∧ b = .list q
      · obtain ⟨p, q, rfl, rfl⟩ := lists
        rw [equalWith_lists] at found ⊢
        by_cases same : p = q
        · rwa [if_pos same] at found ⊢
        · rw [if_neg same] at found ⊢
          by_cases lengths : (h.items p).size ≠ (h.items q).size
          · rwa [if_pos lengths] at found ⊢
          · rw [if_neg lengths] at found ⊢
            by_cases met : seen.contains (p, q) = true
            · rwa [if_pos met] at found ⊢
            · rw [if_neg met] at found ⊢
              exact allEqual_mono inner _ _ found
      · -- other values are compared at once
        unfold equalWith at found ⊢
        split at found
        · exact absurd ⟨_, _, rfl, rfl⟩ lists
        · exact found

/-- More room does not change the answer of an equality test. -/
theorem equal_extra_room (extra : Nat) {room : Nat} {a b : Value} {same : Bool}
    (found : h.equal room a b = some same) : h.equal (extra + room) a b = some same := by
  unfold equal at found ⊢
  obtain ⟨result, compared, rfl⟩ := Option.map_eq_some_iff.mp found
  rw [equalWith_extra_room extra room [] a b compared]
  rfl

/-- An operator that has an answer has the same one with more room. -/
theorem binary_extra_room (h : Heap) (extra room : Nat) (op : BinaryOp) (left right : Value) :
    h.binary room op left right = .error .tooDeep ∨
      h.binary (extra + room) op left right = h.binary room op left right := by
  cases op with
  | equal =>
      cases compared : h.equal room left right with
      | none => exact .inl (by simp [binary, compared])
      | some same => exact .inr (by simp [binary, compared, equal_extra_room extra compared])
  | notEqual =>
      cases compared : h.equal room left right with
      | none => exact .inl (by simp [binary, compared])
      | some same => exact .inr (by simp [binary, compared, equal_extra_room extra compared])
  | _ => exact .inr rfl

/-- A search is too deep, or finds the same with more room. -/
theorem indexFrom_extra_room (h : Heap) (extra room : Nat) (target : Value) (start : Nat)
    (values : List Value) :
    h.indexFrom room target start values = .error .tooDeep ∨
      h.indexFrom (extra + room) target start values = h.indexFrom room target start values := by
  induction values generalizing start with
  | nil => exact .inr rfl
  | cons item rest ih =>
      unfold indexFrom
      cases compared : h.equal room item target with
      | none => exact .inl rfl
      | some same =>
          rw [equal_extra_room extra compared]
          cases same with
          | true => exact .inr rfl
          | false => exact ih (start + 1)

/-- A method that has an answer has the same one with more room. -/
theorem methodEffect_extra_room (h : Heap) (extra room : Nat) (method : ListMethod) (ref : ListRef)
    (arguments : List Value) :
    h.methodEffect room method ref arguments = .error .tooDeep ∨
      h.methodEffect (extra + room) method ref arguments =
        h.methodEffect room method ref arguments := by
  unfold methodEffect
  split
  case h_5 =>
    rcases h.indexFrom_extra_room extra room _ 0 (h.items ref).toList with tooDeep | same
    · exact .inl (by rw [tooDeep])
    · exact .inr (by rw [same])
  all_goals exact .inr rfl

theorem mapM_mono {α β : Type} {f g : α → Option β}
    (more : ∀ a b, f a = some b → g a = some b) {inputs : List α} {outputs : List β}
    (found : inputs.mapM f = some outputs) : inputs.mapM g = some outputs := by
  induction inputs generalizing outputs with
  | nil => exact found
  | cons a rest ih =>
      rw [List.mapM_cons] at found ⊢
      cases first : f a with
      | none => simp [first] at found
      | some b =>
          cases later : rest.mapM f with
          | none => simp [first, later] at found
          | some bs =>
              simp only [first, later] at found
              simpa [more a b first, ih later] using found

/-- More room does not change a text that has been made. -/
theorem textWithin_extra_room (extra room : Nat) (active : List ListRef) (value : Value)
    {text : String} (found : h.textWithin room active value = some text) :
    h.textWithin (extra + room) active value = some text := by
  induction room generalizing active value text with
  | zero => cases found
  | succ room ih =>
      rw [← Nat.add_assoc]
      cases value with
      | list ref =>
          rw [textWithin] at found ⊢
          by_cases inside : active.contains ref = true
          · rwa [if_pos inside] at found ⊢
          · rw [if_neg inside] at found ⊢
            obtain ⟨texts, rendered, rfl⟩ := Option.map_eq_some_iff.mp found
            have all := mapM_mono (fun item text => ih (ref :: active) item) rendered
            exact Option.map_eq_some_iff.mpr ⟨texts, all, rfl⟩
      | _ => exact found

/-- More room does not change what is printed. -/
theorem render_extra_room (extra : Nat) {room : Nat} {value : Value} {text : String}
    (found : h.render room value = some text) : h.render (extra + room) value = some text := by
  rw [render_eq] at found ⊢
  exact textWithin_extra_room extra room [] value found

end TernLang.Heap
