import Mathlib.Data.List.Forall2
import Mathlib.Data.List.InsertIdx
import TernLang.Sorting

/-! # Sorting looks at nothing but the answers of the test

**Sorting the images of some elements gives the images of the sorted elements**
(`sort_map`), if the test on the elements is the test on their images. So sorting
only moves elements around, and two lists of elements that the tests cannot tell
apart are moved around alike.

There is one equation for each step of the sort.
-/

namespace TernLang.Sorting

variable {α β : Type}

/-- The test on elements that compares their images. -/
def testOn (less : β → β → Bool) (f : α → β) (a b : α) : Bool :=
  less (f a) (f b)

variable (less : β → β → Bool) (f : α → β)

/-! ## Runs -/

theorem ascending_map (previous : α) (xs : List α) :
    ascending less (f previous) (xs.map f) =
      Prod.map (List.map f) (List.map f) (ascending (testOn less f) previous xs) := by
  induction xs generalizing previous with
  | nil => rfl
  | cons x rest ih =>
      simp only [List.map_cons, ascending, ih]
      by_cases before : less (f x) (f previous) = true
      · simp [testOn, before]
      · simp [testOn, before]

theorem descending_map (previous : α) (xs : List α) :
    descending less (f previous) (xs.map f) =
      Prod.map (List.map f) (List.map f) (descending (testOn less f) previous xs) := by
  induction xs generalizing previous with
  | nil => rfl
  | cons x rest ih =>
      simp only [List.map_cons, descending, ih]
      by_cases before : less (f x) (f previous) = true
      · simp [testOn, before]
      · simp [testOn, before]

theorem leadingRun_map (xs : List α) :
    leadingRun less (xs.map f) =
      Prod.map (List.map f) (List.map f) (leadingRun (testOn less f) xs) := by
  match xs with
  | [] => rfl
  | [x] => rfl
  | x :: y :: rest =>
      simp only [List.map_cons, leadingRun, ascending_map, descending_map]
      by_cases before : less (f y) (f x) = true
      · simp [testOn, before]
      · simp [testOn, before]

theorem notAfter_map (key : Option α) (xs : Array α) (i : Nat) :
    notAfter less (key.map f) (xs.map f) i = notAfter (testOn less f) key xs i := by
  unfold notAfter
  cases key <;> cases found : xs[i]? <;> simp [found, testOn]

theorem isBefore_map (key : Option α) (xs : Array α) (i : Nat) :
    isBefore less (key.map f) (xs.map f) i = isBefore (testOn less f) key xs i := by
  unfold isBefore
  cases key <;> cases found : xs[i]? <;> simp [found, testOn]

theorem notAfter_map_fun (key : Option α) (xs : Array α) :
    notAfter less (key.map f) (xs.map f) = notAfter (testOn less f) key xs :=
  funext (notAfter_map less f key xs)

theorem isBefore_map_fun (key : Option α) (xs : Array α) :
    isBefore less (key.map f) (xs.map f) = isBefore (testOn less f) key xs :=
  funext (isBefore_map less f key xs)

theorem insertIdxIfInBounds_map (xs : Array α) (i : Nat) (x : α) :
    (xs.map f).insertIdxIfInBounds i (f x) = (xs.insertIdxIfInBounds i x).map f := by
  unfold Array.insertIdxIfInBounds
  simp only [Array.size_map]
  split
  · apply Array.toList_inj.mp
    simp [List.map_insertIdx]
  · rfl

theorem insert_map (run : Array α) (x : α) :
    insert less (run.map f) (f x) = (insert (testOn less f) run x).map f := by
  have test := notAfter_map_fun less f (some x) run
  rw [Option.map_some] at test
  unfold insert
  rw [test, Array.size_map, insertIdxIfInBounds_map]

theorem foldl_insert_map (xs : List α) (run : Array α) :
    (xs.map f).foldl (insert less) (run.map f) =
      (xs.foldl (insert (testOn less f)) run).map f := by
  induction xs generalizing run with
  | nil => rfl
  | cons x rest ih => simp only [List.map_cons, List.foldl_cons, insert_map, ih]

theorem nextRun_map (least : Nat) (xs : List α) :
    nextRun less least (xs.map f) =
      Prod.map (Array.map f) (List.map f) (nextRun (testOn less f) least xs) := by
  unfold nextRun
  simp only [leadingRun_map, Prod.map, List.length_map, ← List.map_take, ← List.map_drop,
    ← List.map_toArray, foldl_insert_map]

/-! ## Merging -/

/-- The merged run of the images. -/
def Merged.map (f : α → β) (merged : Merged α) : Merged β :=
  ⟨merged.items.map f, merged.eagerness⟩

theorem mergeUp_map (xs ys : Array α) (fuel i j eagerness : Nat) (pace : Pace) (out : Array α) :
    mergeUp less (xs.map f) (ys.map f) fuel i j eagerness pace (out.map f) =
      (mergeUp (testOn less f) xs ys fuel i j eagerness pace out).map f := by
  induction fuel generalizing i j eagerness pace out with
  | zero => simp [mergeUp, Merged.map]
  | succ fuel ih =>
      -- every test and every stretch that is moved is the image of one on the left
      cases pace with
      | single firstWins secondWins =>
          simp only [mergeUp, Array.size_map, Array.getElem?_map, isBefore_map,
            ← Array.map_extract, ← Array.map_append, ih]
          split_ifs <;> rfl
      | stretches =>
          simp only [mergeUp, Array.size_map, Array.getElem?_map, isBefore_map, notAfter_map,
            ← Array.map_extract, ← Array.map_append, ih]
          split_ifs <;> rfl

theorem mergeDown_map (xs ys : Array α) (fuel m n eagerness : Nat) (pace : Pace) (out : List α) :
    mergeDown less (xs.map f) (ys.map f) fuel m n eagerness pace (out.map f) =
      (mergeDown (testOn less f) xs ys fuel m n eagerness pace out).map f := by
  induction fuel generalizing m n eagerness pace out with
  | zero => simp [mergeDown, Merged.map]
  | succ fuel ih =>
      cases pace with
      | single firstWins secondWins =>
          simp only [mergeDown, Array.getElem?_map, isBefore_map, ← Array.map_extract,
            Array.toList_map, ← List.map_append, ih, ← List.map_toArray]
          split_ifs <;> rfl
      | stretches =>
          simp only [mergeDown, Array.getElem?_map, notAfter_map_fun, isBefore_map_fun, ← Array.map_extract,
            Array.toList_map, ← List.map_append, ih, ← List.map_toArray]
          split_ifs <;> rfl

/-- Merging mapped runs is mapping the merge under the test on the originals. -/
theorem merge_map (eagerness : Nat) (xs ys : Array α) :
    merge less eagerness (xs.map f) (ys.map f) = (merge (testOn less f) eagerness xs ys).map f := by
  simp only [merge, Array.getElem?_map, Array.size_map, Array.back?_map, notAfter_map_fun, isBefore_map_fun,
    ← Array.map_extract, Array.toList_map, mergeUp_map, mergeDown_map, ← Array.map_append]
  split_ifs <;> simp [Merged.map]

/-! ## Waiting runs -/

def Waiting.map (f : α → β) (waiting : Waiting α) : Waiting β :=
  ⟨waiting.start, waiting.items.map f, waiting.rank⟩

def Stack.map (f : α → β) (stack : Stack α) : Stack β :=
  ⟨stack.runs.map (Waiting.map f), stack.eagerness⟩

theorem mergeWaiting_map (eagerness : Nat) (below above : Waiting α) :
    mergeWaiting less eagerness (below.map f) (above.map f) =
      Prod.map (Waiting.map f) id (mergeWaiting (testOn less f) eagerness below above) := by
  simp only [mergeWaiting, Waiting.map, merge_map]
  rfl

theorem collapse_map (rank fuel : Nat) (stack : Stack α) :
    collapse less rank fuel (stack.map f) = (collapse (testOn less f) rank fuel stack).map f := by
  induction fuel generalizing stack with
  | zero => rfl
  | succ fuel ih =>
      obtain ⟨runs, eagerness⟩ := stack
      match runs with
      | [] => rfl
      | [run] => rfl
      | above :: below :: rest =>
          simp only [collapse, Stack.map, List.map_cons, mergeWaiting_map]
          show (if rank < below.rank then _ else _) = Stack.map f (if rank < below.rank then _ else _)
          split
          · exact ih ⟨_ :: rest, _⟩
          · rfl

theorem setRank_map (rank : Nat) (stack : Stack α) :
    setRank rank (stack.map f) = (setRank rank stack).map f := by
  obtain ⟨runs, eagerness⟩ := stack
  cases runs <;> rfl

theorem push_map (n start : Nat) (run : Array α) (stack : Stack α) :
    push less n start (run.map f) (stack.map f) =
      (push (testOn less f) n start run stack).map f := by
  obtain ⟨runs, eagerness⟩ := stack
  cases runs with
  | nil => rfl
  | cons top rest =>
      have tops : (Stack.map f ⟨top :: rest, eagerness⟩).runs =
          top.map f :: rest.map (Waiting.map f) := rfl
      simp only [push, tops, collapse_map, setRank_map]
      simp [Stack.map, Waiting.map]

/-- The runs found and the merges made depend on what the test answers only. -/
theorem stackRuns_map (n least fuel start : Nat) (xs : List α) (stack : Stack α) :
    stackRuns less n least fuel start (xs.map f) (stack.map f) =
      (stackRuns (testOn less f) n least fuel start xs stack).map f := by
  induction fuel generalizing start xs stack with
  | zero => rfl
  | succ fuel ih =>
      simp only [stackRuns, nextRun_map, List.isEmpty_map, Prod.map, Array.size_map, push_map, ih]
      split <;> rfl

/-- The runs that are left when the fuel is used up are put together as they
are. -/
theorem foldl_items_map (runs : List (Waiting α)) (items : Array α) :
    (runs.map (Waiting.map f)).foldl (fun acc run => run.items ++ acc) (items.map f) =
      (runs.foldl (fun acc run => run.items ++ acc) items).map f := by
  induction runs generalizing items with
  | nil => rfl
  | cons run rest ih =>
      simp only [List.map_cons, List.foldl_cons]
      rw [show (run.map f).items = run.items.map f from rfl, ← Array.map_append, ih]

theorem mergeAll_map (fuel eagerness : Nat) (runs : List (Waiting α)) :
    mergeAll less fuel eagerness (runs.map (Waiting.map f)) =
      (mergeAll (testOn less f) fuel eagerness runs).map f := by
  induction fuel generalizing eagerness runs with
  | zero =>
      match runs with
      | [] => simp [mergeAll]
      | [run] => rfl
      | above :: below :: rest =>
          have together := foldl_items_map f (above :: below :: rest) #[]
          rw [Array.map_empty] at together
          exact together
  | succ fuel ih =>
      match runs with
      | [] => simp [mergeAll]
      | [run] => rfl
      | [above, below] =>
          simp only [List.map_cons, List.map_nil, mergeAll, Waiting.map, merge_map]
          rfl
      | above :: below :: third :: rest =>
          simp only [List.map_cons, mergeAll, mergeWaiting_map, Prod.map]
          have size : ∀ run : Waiting α, (run.map f).items.size = run.items.size := by
            simp [Waiting.map]
          rw [size, size]
          split
          · exact ih _ (above :: _ :: rest)
          · exact ih _ (_ :: third :: rest)

/-- **Sorting commutes with taking images.** -/
theorem sort_map (xs : List α) :
    sort less (xs.map f) = (sort (testOn less f) xs).map f := by
  have empty : (⟨[], longStretch⟩ : Stack β) = Stack.map f ⟨[], longStretch⟩ := rfl
  simp only [sort, List.length_map]
  rw [empty, stackRuns_map]
  simp only [Stack.map, List.length_map, mergeAll_map, Array.toList_map]

/-! ## Two lists side by side -/

/-- Related lists are the two images of a list of related pairs. -/
theorem exists_pairs {R : α → β → Prop} {xs : List α} {ys : List β} (related : List.Forall₂ R xs ys) :
    ∃ pairs : List { pair : α × β // R pair.1 pair.2 },
      xs = pairs.map (·.1.1) ∧ ys = pairs.map (·.1.2) := by
  induction related with
  | nil => exact ⟨[], rfl, rfl⟩
  | cons related _ ih =>
      obtain ⟨pairs, rfl, rfl⟩ := ih
      exact ⟨⟨(_, _), related⟩ :: pairs, rfl, rfl⟩

theorem forall₂_images {R : α → β → Prop} (pairs : List { pair : α × β // R pair.1 pair.2 }) :
    List.Forall₂ R (pairs.map (·.1.1)) (pairs.map (·.1.2)) := by
  induction pairs with
  | nil => exact .nil
  | cons pair _ ih => exact .cons pair.2 ih

/-- **Related lists are sorted alike**, if the tests agree on related elements. -/
theorem sort_related {R : α → β → Prop} {test : α → α → Bool} {test' : β → β → Bool}
    (same : ∀ {a a' b b'}, R a a' → R b b' → test' a' b' = test a b) {xs : List α} {ys : List β}
    (related : List.Forall₂ R xs ys) : List.Forall₂ R (sort test xs) (sort test' ys) := by
  obtain ⟨pairs, rfl, rfl⟩ := exists_pairs related
  -- on pairs of related elements the two tests are one and the same
  have tests : testOn test' (fun pair : { pair : α × β // R pair.1 pair.2 } => pair.1.2) =
      testOn test (fun pair => pair.1.1) := by
    funext a b
    exact same a.2 b.2
  rw [sort_map, sort_map, tests]
  exact forall₂_images _

end TernLang.Sorting
