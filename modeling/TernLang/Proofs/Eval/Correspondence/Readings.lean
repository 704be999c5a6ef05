import TernLang.Proofs.Eval.Correspondence
import TernLang.Proofs.Eval.Lines

/-! # Readings of corresponding values

What operators, indexing, slices and the methods of lists read on corresponding
heaps corresponds. Operators look at kinds and constants alone, which
corresponding values share; lists are read and changed position by position, so
that corresponding elements stay at the same positions.
-/

namespace TernLang

/-! ## Arrays -/

section Arrays

variable {values : Value → Value → Prop} {xs ys : Array Value}

theorem Elementwise.size_eq (related : Elementwise values xs ys) : ys.size = xs.size := by
  have lengths := List.Forall₂.length_eq related
  simpa using lengths.symm

/-- Corresponding arrays are the two images of an array of corresponding pairs. -/
theorem Elementwise.exists_pairs (related : Elementwise values xs ys) :
    ∃ pairs : Array { pair : Value × Value // values pair.1 pair.2 },
      xs = pairs.map (·.1.1) ∧ ys = pairs.map (·.1.2) := by
  obtain ⟨pairs, left, right⟩ := Sorting.exists_pairs related
  refine ⟨pairs.toArray, ?_, ?_⟩
  · rw [List.map_toArray, ← left]
  · rw [List.map_toArray, ← right]

/-- The two sides of an array of related pairs are related elementwise. -/
theorem elementwise_images (pairs : Array { pair : Value × Value // values pair.1 pair.2 }) :
    Elementwise values (pairs.map (·.1.1)) (pairs.map (·.1.2)) := by
  unfold Elementwise
  rw [Array.toList_map, Array.toList_map]
  exact Sorting.forall₂_images pairs.toList

/-- A change that only moves and drops elements keeps the correspondence. -/
theorem Elementwise.change (related : Elementwise values xs ys)
    (change : ∀ {α : Type}, Array α → Array α)
    (natural : ∀ {α β : Type} (f : α → β) (zs : Array α), change (zs.map f) = (change zs).map f) :
    Elementwise values (change xs) (change ys) := by
  obtain ⟨pairs, rfl, rfl⟩ := related.exists_pairs
  rw [natural, natural]
  exact elementwise_images (change pairs)

theorem Elementwise.push (related : Elementwise values xs ys) {v v' : Value} (added : values v v') :
    Elementwise values (xs.push v) (ys.push v') := by
  unfold Elementwise
  rw [Array.toList_push, Array.toList_push]
  exact List.rel_append related (.cons added .nil)

/-- Inserting related values at one index keeps two arrays related. -/
theorem Elementwise.insert (related : Elementwise values xs ys) (i : Nat) {v v' : Value}
    (added : values v v') :
    Elementwise values (xs.insertIdxIfInBounds i v) (ys.insertIdxIfInBounds i v') := by
  obtain ⟨pairs, rfl, rfl⟩ := related.exists_pairs
  have left := Sorting.insertIdxIfInBounds_map (·.1.1) pairs i
    (⟨(v, v'), added⟩ : { pair : Value × Value // values pair.1 pair.2 })
  have right := Sorting.insertIdxIfInBounds_map (·.1.2) pairs i
    (⟨(v, v'), added⟩ : { pair : Value × Value // values pair.1 pair.2 })
  rw [left, right]
  exact elementwise_images _

theorem Elementwise.getElem? (related : Elementwise values xs ys) (i : Nat) :
    Option.Rel values xs[i]? ys[i]? := by
  obtain ⟨pairs, rfl, rfl⟩ := related.exists_pairs
  rw [Array.getElem?_map, Array.getElem?_map]
  cases pairs[i]? with
  | none => exact .none
  | some pair => exact .some pair.2

theorem eraseIdxIfInBounds_map {α β : Type} (f : α → β) (zs : Array α) (i : Nat) :
    (zs.map f).eraseIdxIfInBounds i = (zs.eraseIdxIfInBounds i).map f := by
  apply Array.toList_inj.mp
  simp [List.eraseIdx_map]

end Arrays

/-! ## Kinds and constants -/

section Constants

variable {values : Value → Value → Prop} {v v' a a' b b' : Value}

/-- Values alike are accepted as positions alike: a position is read off a number alone. -/
theorem Value.Alike.position_eq (alike : v.Alike v') (use : PositionUse) :
    position use v' = position use v := by
  cases alike <;> rfl

theorem Value.Alike.positionBelow_eq (alike : v.Alike v') (use : PositionUse)
    (limit length : Nat) : positionBelow use limit length v' = positionBelow use limit length v := by
  unfold positionBelow
  rw [alike.position_eq]

theorem Value.Alike.sliceBound_eq (alike : v.Alike v') (bound : SliceBound) :
    sliceBound bound v' = sliceBound bound v := by
  cases alike <;> rfl

/-- Sorting compares what values alike have in common. -/
theorem Value.Alike.sortsBefore_eq (first : a.Alike a') (second : b.Alike b') :
    sortsBefore a' b' = sortsBefore a b := by
  cases first <;> cases second <;> rfl

theorem Value.Alike.numberOperands_eq (first : a.Alike a') (second : b.Alike b') (op : BinaryOp) :
    numberOperands op a' b' = numberOperands op a b := by
  cases first <;> cases second <;> rfl

theorem negateValue_related (alike : v.Alike v') :
    Readings (Outcome.Alike values) (negateValue v) (negateValue v') := by
  cases alike with
  | number x => exact .ok (.number (-x))
  | _ => exact .error _

theorem stepValue_related (alike : v.Alike v') (name : String) (step : Step) :
    Readings (Outcome.Alike values) (stepValue name step v) (stepValue name step v') := by
  cases alike with
  | number x => exact .ok (.number (x + step.delta))
  | _ => exact .error _

end Constants

namespace Eval

variable {C : Correspondence} {w : C.World} {h h' : Heap}

/-! ## Operators -/

/-- Arithmetic on related operands gives the same number or the same fault. -/
theorem arithmetic_related {a a' b b' : Value} (first : C.Values w a a') (second : C.Values w b b')
    (op : BinaryOp) (compute : Float → Float → Float) :
    Readings (Outcome.Alike (C.Values w)) ((arithmetic op compute a b).mapError Stop.ofFault)
      ((arithmetic op compute a' b').mapError Stop.ofFault) := by
  unfold arithmetic
  rw [(C.alike first).numberOperands_eq (C.alike second)]
  cases numberOperands op a b with
  | ok operands => exact .ok (.number _)
  | error fault => exact .error _

/-- A truth value corresponds to itself. -/
theorem values_bool (w : C.World) (b : Bool) : C.Values w (.bool b) (.bool b) :=
  C.constant w (.bool b)

theorem ordering_related {a a' b b' : Value} (first : C.Values w a a') (second : C.Values w b b')
    (op : BinaryOp) (compare : Float → Float → Bool) :
    Readings (Outcome.Alike (C.Values w)) ((ordering op compare a b).mapError Stop.ofFault)
      ((ordering op compare a' b').mapError Stop.ofFault) := by
  unfold ordering
  rw [(C.alike first).numberOperands_eq (C.alike second)]
  cases numberOperands op a b with
  | ok operands => exact .ok (.value (values_bool w _))
  | error fault => exact .error _

theorem divideValues_related {a a' b b' : Value} (first : C.Values w a a')
    (second : C.Values w b b') :
    Readings (Outcome.Alike (C.Values w)) ((divideValues a b).mapError Stop.ofFault)
      ((divideValues a' b').mapError Stop.ofFault) := by
  unfold divideValues
  rw [(C.alike first).numberOperands_eq (C.alike second)]
  cases numberOperands .divide a b with
  | error fault => exact .error _
  | ok operands =>
      obtain ⟨x, y⟩ := operands
      show Readings _ (Except.mapError Stop.ofFault (if y == 0 then _ else _))
        (Except.mapError Stop.ofFault (if y == 0 then _ else _))
      by_cases zero : (y == 0) = true
      · rw [if_pos zero]
        exact .error _
      · rw [if_neg zero]
        exact .ok (.number _)

/-- Addition on related operands gives the same number, the same text or the same fault. -/
theorem addValues_related {a a' b b' : Value} (first : C.Values w a a')
    (second : C.Values w b b') :
    Readings (Outcome.Alike (C.Values w)) ((addValues a b).mapError Stop.ofFault)
      ((addValues a' b').mapError Stop.ofFault) := by
  have left := C.alike first
  have right := C.alike second
  cases left with
  | string s =>
      cases right with
      | string t => exact .ok (.value (C.constant w (.string (s ++ t))))
      | _ => exact .error _
  | number x =>
      cases right with
      | number y => exact .ok (.number (x + y))
      | _ => exact .error _
  | _ => cases right <;> exact .error _

/-- An operator read in related heaps gives outcomes alike. -/
theorem binary_related (heaps : C.Heaps w h h') (room : Nat) (op : BinaryOp) {a a' b b' : Value}
    (first : C.Values w a a') (second : C.Values w b b') :
    Readings (Outcome.Alike (C.Values w)) (h.binary room op a b) (h'.binary room op a' b') := by
  have same := C.equal room heaps first second
  cases op with
  | add => exact addValues_related first second
  | divide => exact divideValues_related first second
  | subtract => exact arithmetic_related first second _ _
  | multiply => exact arithmetic_related first second _ _
  | less => exact ordering_related first second _ _
  | lessEqual => exact ordering_related first second _ _
  | greater => exact ordering_related first second _ _
  | greaterEqual => exact ordering_related first second _ _
  | equal =>
      unfold Heap.binary
      rw [same]
      cases h.equal room a b with
      | some same => exact .ok (.value (values_bool w same))
      | none => exact .error _
  | notEqual =>
      unfold Heap.binary
      rw [same]
      cases h.equal room a b with
      | some same => exact .ok (.value (values_bool w !same))
      | none => exact .error _

/-! ## Lists -/

theorem values_null (w : C.World) : C.Values w .null .null :=
  C.constant w .null

theorem values_ofFloat (w : C.World) (x : Float) : C.Values w (.ofFloat x) (.ofFloat x) :=
  C.constant w (.number x)

/-- Indexing related lists at related positions gives related elements or the same fault. -/
theorem getItem_related (heaps : C.Heaps w h h') {target target' index index' : Value}
    (targets : C.Values w target target') (indices : C.Values w index index') :
    Readings (C.Values w) (h.getItem target index) (h'.getItem target' index') := by
  cases C.alike targets with
  | list ref ref' =>
      have related := C.items heaps targets
      unfold Heap.getItem
      simp only [related.size_eq, (C.alike indices).positionBelow_eq]
      cases positionBelow .index (h.items ref).size (h.items ref).size index with
      | error fault => exact .error fault
      | ok i =>
          refine .ok ?_
          have elements := related.getElem? i
          rw [Array.getD_eq_getD_getElem?, Array.getD_eq_getD_getElem?]
          generalize (h.items ref)[i]? = left at elements ⊢
          generalize (h'.items ref')[i]? = right at elements ⊢
          cases elements with
          | none => exact values_null w
          | some found => exact found
  | _ => exact .error _

/-- Slicing related lists between related bounds gives related elements or the same
fault. -/
theorem slice_related (heaps : C.Heaps w h h') {target target' : Value}
    {first first' last last' : Option Value} (targets : C.Values w target target')
    (lows : Option.Rel (C.Values w) first first') (highs : Option.Rel (C.Values w) last last') :
    Readings (Elementwise (C.Values w)) (h.slice target first last)
      (h'.slice target' first' last') := by
  have bound_eq : ∀ (bound : SliceBound) {v v' : Option Value},
      Option.Rel (C.Values w) v v' → v'.mapM (sliceBound bound) = v.mapM (sliceBound bound) := by
    intro bound v v' given
    cases given with
    | none => rfl
    | some value => rw [Option.mapM_some, Option.mapM_some, (C.alike value).sliceBound_eq]
  cases C.alike targets with
  | list ref ref' =>
      have related := C.items heaps targets
      unfold Heap.slice
      simp only [bound_eq _ lows, bound_eq _ highs]
      cases first.mapM (sliceBound .first) with
      | error fault => exact .error fault
      | ok low =>
          cases last.mapM (sliceBound .last) with
          | error fault => exact .error fault
          | ok high =>
              refine .ok ?_
              unfold sliceItems
              rw [related.size_eq]
              simp only
              split
              · exact related.change (fun items => items.extract _ _)
                  fun f items => Array.map_extract.symm
              · exact .nil
  | _ => exact .error _

/-- Arrays related elementwise have elements of the same types, so both sort or neither
does. -/
theorem elementTypes_eq {xs ys : Array Value} (related : Elementwise (C.Values w) xs ys) :
    elementTypes ys = elementTypes xs := by
  obtain ⟨pairs, rfl, rfl⟩ := related.exists_pairs
  have types : ∀ type : TypeName, (pairs.map (·.1.2)).any (·.type == type) =
      (pairs.map (·.1.1)).any (·.type == type) := by
    intro type
    rw [Array.any_map, Array.any_map]
    congr 1
    funext pair
    exact congrArg (· == type) (C.alike pair.2).type_eq
  unfold elementTypes
  simp only [types]

/-- Related arrays sort into related arrays, or are refused alike. -/
theorem sortItems_related {xs ys : Array Value} (related : Elementwise (C.Values w) xs ys) :
    Readings (Elementwise (C.Values w)) (sortItems xs) (sortItems ys) := by
  have sorted : Elementwise (C.Values w) (Sorting.sort sortsBefore xs.toList).toArray
      (Sorting.sort sortsBefore ys.toList).toArray :=
    Sorting.sort_related (R := C.Values w)
      (fun first second => (C.alike first).sortsBefore_eq (C.alike second)) related
  unfold sortItems
  rw [related.size_eq, elementTypes_eq related]
  split
  · exact .ok related
  · split
    · exact .ok sorted
    · exact .ok sorted
    · exact .error _

/-- Searching related lists for related values finds the same position. -/
theorem indexFrom_eq (heaps : C.Heaps w h h') (room : Nat) {target target' : Value}
    (targets : C.Values w target target') {xs ys : List Value}
    (related : List.Forall₂ (C.Values w) xs ys) (start : Nat) :
    h'.indexFrom room target' start ys = h.indexFrom room target start xs := by
  induction related generalizing start with
  | nil => rfl
  | cons item _ ih =>
      unfold Heap.indexFrom
      rw [C.equal room heaps item targets, ih]

/-- What a method gives corresponds, and what it makes of the elements. -/
def EffectsAlike (C : Correspondence) (w : C.World) (items items' : Array Value)
    (effect effect' : Value × (Array Value → Array Value)) : Prop :=
  C.Values w effect.1 effect'.1 ∧ Elementwise (C.Values w) (effect.2 items) (effect'.2 items')

/-- A method on related lists with related arguments has related effects or the same
fault. -/
theorem methodEffect_related (heaps : C.Heaps w h h') (room : Nat) (method : ListMethod)
    {ref ref' : ListRef} (receivers : C.Values w (.list ref) (.list ref'))
    {arguments arguments' : List Value}
    (given : List.Forall₂ (C.Values w) arguments arguments') :
    Readings (EffectsAlike C w (h.items ref) (h'.items ref'))
      (h.methodEffect room method ref arguments) (h'.methodEffect room method ref' arguments') := by
  have related := C.items heaps receivers
  have sizes := related.size_eq
  have counted : arguments'.length = arguments.length := given.length_eq.symm
  cases given with
  | nil =>
      cases method with
      | pop =>
          have last := related.getElem? ((h.items ref).size - 1)
          simp only [Heap.methodEffect, Array.back?, sizes]
          generalize (h.items ref)[(h.items ref).size - 1]? = left at last ⊢
          generalize (h'.items ref')[(h.items ref).size - 1]? = right at last ⊢
          cases last with
          | none => exact .error _
          | some found =>
              exact .ok ⟨found, related.change Array.pop fun f items => (Array.map_pop).symm⟩
      | len =>
          simp only [Heap.methodEffect, sizes]
          exact .ok ⟨values_ofFloat w _, related⟩
      | sort =>
          have sorted := sortItems_related related
          simp only [Heap.methodEffect]
          generalize sortItems (h.items ref) = left at sorted ⊢
          generalize sortItems (h'.items ref') = right at sorted ⊢
          cases sorted with
          | ok items => exact .ok ⟨receivers, items⟩
          | error fault => exact .error _
      | _ => exact .error _
  | cons first rest =>
      cases rest with
      | nil =>
          cases method with
          | push => exact .ok ⟨values_null w, related.push first⟩
          | remove =>
              simp only [Heap.methodEffect, sizes, (C.alike first).positionBelow_eq]
              cases positionBelow .removal (h.items ref).size (h.items ref).size _ with
              | error fault => exact .error _
              | ok i =>
                  exact .ok ⟨values_null w, related.change (fun items => items.eraseIdxIfInBounds i)
                    fun f items => eraseIdxIfInBounds_map f items i⟩
          | index =>
              simp only [Heap.methodEffect, indexFrom_eq heaps room first related 0]
              cases h.indexFrom room _ 0 (h.items ref).toList with
              | error stop => exact .error _
              | ok found =>
                  refine .ok ⟨?_, related⟩
                  cases found with
                  | none => exact values_ofFloat w _
                  | some i => exact values_ofFloat w _
          | _ => exact .error _
      | cons second others =>
          cases others with
          | nil =>
              cases method with
              | insertAt =>
                  simp only [Heap.methodEffect, sizes, (C.alike first).positionBelow_eq]
                  cases positionBelow .insertion ((h.items ref).size + 1) (h.items ref).size _ with
                  | error fault => exact .error _
                  | ok i => exact .ok ⟨values_null w, related.insert i second⟩
              | _ => exact .error _
          | cons third more =>
              -- no method takes three arguments, and the report counts them
              have refused : ∀ (h : Heap) (ref : ListRef) (a b c : Value) (rest : List Value),
                  h.methodEffect room method ref (a :: b :: c :: rest) = .error (.ofFault
                    (.wrongArity method.text method.arity (a :: b :: c :: rest).length)) := by
                intro h ref a b c rest
                cases method <;> rfl
              rw [refused, refused, counted]
              exact .error _

/-- The built-in hash answers alike on values alike. -/
theorem hashValue_related {v v' : Value} (alike : v.Alike v') :
    Readings (C.Values w) (hashValue v) (hashValue v') := by
  cases alike with
  | string s => exact .ok (C.constant w (.string _))
  | _ => exact .error _

theorem resolveMethod_related {target target' : Value} (targets : C.Values w target target')
    (name : String) :
    Readings (fun found found' : ListMethod × ListRef =>
        found'.1 = found.1 ∧ C.Values w (.list found.2) (.list found'.2))
      (resolveMethod target name) (resolveMethod target' name) := by
  cases C.alike targets with
  | list ref ref' =>
      unfold resolveMethod
      cases ListMethod.ofText? name with
      | some method => exact .ok ⟨rfl, targets⟩
      | none => exact .error _
  | _ => exact .error _

end Eval

end TernLang
