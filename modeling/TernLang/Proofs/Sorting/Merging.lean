import Mathlib.Data.List.Chain
import Mathlib.Data.List.Perm.Basic
import TernLang.Proofs.Sorting.Borders
import TernLang.Sorting.Merge

/-! # Merging runs

Merging moves elements around and loses none (`merge_perm`). **If in both runs each
element is related to the next one, then so it is in the merged run** (`merge_isChain`),
for any relation that the answers of the test imply between an element of the first run
and one of the second (`Directs`). The test need not be an order: wherever the merged run
goes over from one run to the other, that very pair of elements was compared.
-/

namespace TernLang.Sorting

variable {α : Type} {less : α → α → Bool} {R : α → α → Prop}

/-- The second element may come right behind the first one, unless the test says that it
is less, and then in front of it. -/
structure Directs (less : α → α → Bool) (R : α → α → Prop) (x y : α) : Prop where
  keeps : less y x = false → R x y
  swaps : less y x = true → R y x

/-- All elements of the one list are in this relation to those of the other. -/
def Across (P : α → α → Prop) (xs ys : List α) : Prop :=
  ∀ x ∈ xs, ∀ y ∈ ys, P x y

theorem Across.mono {P : α → α → Prop} {xs xs' ys ys' : List α} (across : Across P xs ys)
    (first : xs' ⊆ xs) (second : ys' ⊆ ys) : Across P xs' ys' :=
  fun x mem y mem' => across x (first mem) y (second mem')

/-! ## Stretches -/

theorem toList_extract_from (xs : Array α) (i : Nat) :
    (xs.extract i).toList = xs.toList.drop i := by
  rw [Array.toList_extract, List.extract_eq_take_drop, List.take_of_length_le (by simp)]

theorem toList_extract_to (xs : Array α) (i j : Nat) :
    (xs.extract i j).toList = (xs.toList.drop i).take (j - i) := by
  simp

theorem take_size (xs : Array α) : xs.toList.take xs.size = xs.toList := by
  rw [← Array.length_toList, List.take_length]

theorem head?_drop_append {xs : Array α} {i : Nat} (inside : i < xs.size) (back : List α) :
    (xs.toList.drop i ++ back).head? = xs[i]? := by
  rw [List.head?_append, List.head?_drop, Array.getElem?_toList, Array.getElem?_eq_getElem inside,
    Option.some_or]

theorem getLast?_stretch {xs : Array α} {i k : Nat} (some : 0 < k) (inside : i + k ≤ xs.size) :
    ((xs.toList.drop i).take k).getLast? = xs[i + k - 1]? := by
  have here : i + k - 1 < xs.size := by omega
  have there : i + (k - 1) = i + k - 1 := by omega
  rw [List.getLast?_take, if_neg (by omega), List.getElem?_drop, there, Array.getElem?_toList,
    Array.getElem?_eq_getElem here, Option.some_or]

/-- After a stretch of one run, the other run may go on where the last element of the
stretch allows it; and the one run goes on anyway. -/
theorem isChain_stretch {xs : Array α} {i k : Nat} {out other back : List α}
    (inside : i + k ≤ xs.size) (onRun : (out ++ (xs.toList.drop i ++ back)).IsChain R)
    (onOther : (out ++ other).IsChain R)
    (link : 0 < k → ∀ x ∈ xs[i + k - 1]?, ∀ y ∈ other.head?, R x y) :
    (out ++ (xs.toList.drop i).take k ++ (xs.toList.drop (i + k) ++ back)).IsChain R ∧
      (out ++ (xs.toList.drop i).take k ++ other).IsChain R := by
  have parts : (xs.toList.drop i).take k ++ xs.toList.drop (i + k) = xs.toList.drop i := by
    rw [← List.drop_drop, List.take_append_drop]
  have goesOn : (out ++ (xs.toList.drop i).take k ++ (xs.toList.drop (i + k) ++ back)).IsChain R := by
    rwa [List.append_assoc, ← List.append_assoc _ _ back, parts]
  refine ⟨goesOn, ?_⟩
  rcases Nat.eq_zero_or_pos k with rfl | some
  · simpa using onOther
  · rw [List.isChain_append]
    refine ⟨goesOn.left_of_append, onOther.right_of_append, ?_⟩
    rw [List.getLast?_append, getLast?_stretch some inside, Array.getElem?_eq_getElem (by omega),
      Option.some_or]
    rw [Array.getElem?_eq_getElem (by omega)] at link
    exact link some

section Answers

variable {xs ys : Array α} {i j : Nat}

theorem mem_of_mem_getElem? {x : α} (found : x ∈ xs[i]?) : x ∈ xs.toList :=
  Array.mem_toList_iff.mpr (Array.mem_of_getElem? found)

theorem keeps_of_notAfter (directs : Across (Directs less R) xs.toList ys.toList)
    (answer : notAfter less ys[j]? xs i = true) : ∀ x ∈ xs[i]?, ∀ y ∈ ys[j]?, R x y := by
  intro x first y second
  rw [Option.mem_def] at first second
  simp only [notAfter, first, second] at answer
  exact (directs x (mem_of_mem_getElem? first) y (mem_of_mem_getElem? second)).keeps
    (by simpa using answer)

theorem swaps_of_notAfter (directs : Across (Directs less R) xs.toList ys.toList)
    (answer : notAfter less ys[j]? xs i = false) : ∀ y ∈ ys[j]?, ∀ x ∈ xs[i]?, R y x := by
  intro y second x first
  rw [Option.mem_def] at first second
  simp only [notAfter, first, second] at answer
  exact (directs x (mem_of_mem_getElem? first) y (mem_of_mem_getElem? second)).swaps
    (by simpa using answer)

theorem swaps_of_isBefore (directs : Across (Directs less R) xs.toList ys.toList)
    (answer : isBefore less xs[i]? ys j = true) : ∀ y ∈ ys[j]?, ∀ x ∈ xs[i]?, R y x := by
  intro y second x first
  rw [Option.mem_def] at first second
  simp only [isBefore, first, second] at answer
  exact (directs x (mem_of_mem_getElem? first) y (mem_of_mem_getElem? second)).swaps answer

theorem keeps_of_isBefore (directs : Across (Directs less R) xs.toList ys.toList)
    (answer : isBefore less xs[i]? ys j = false) : ∀ x ∈ xs[i]?, ∀ y ∈ ys[j]?, R x y := by
  intro x first y second
  rw [Option.mem_def] at first second
  simp only [isBefore, first, second] at answer
  exact (directs x (mem_of_mem_getElem? first) y (mem_of_mem_getElem? second)).keeps answer

theorem lt_size_of_isBefore {key : Option α} (answer : isBefore less key ys j = true) :
    j < ys.size := by
  by_contra outside
  have none : ys[j]? = none := Array.getElem?_eq_none (Nat.le_of_not_lt outside)
  cases key <;> simp [isBefore, none] at answer

theorem lt_size_of_notAfter {key : Option α} (answer : notAfter less key xs i = true) :
    i < xs.size := by
  by_contra outside
  have none : xs[i]? = none := Array.getElem?_eq_none (Nat.le_of_not_lt outside)
  cases key <;> simp [notAfter, none] at answer

end Answers

/-! ## From the lower end -/

section Up

/-- What was merged goes on with either run, and behind both comes `back`. -/
structure GoesOn (R : α → α → Prop) (front back : List α) (xs ys : Array α) (i j : Nat)
    (out : Array α) : Prop where
  onFirst : (front ++ out.toList ++ (xs.toList.drop i ++ back)).IsChain R
  onSecond : (front ++ out.toList ++ (ys.toList.drop j ++ back)).IsChain R

variable {front back : List α} {xs ys out : Array α} {i j k : Nat}

/-- Taking a stretch of the first run goes on with the merge, if its last element may stand
in front of the next of the second. -/
theorem GoesOn.takeFirst (goesOn : GoesOn R front back xs ys i j out) (inside : i + k ≤ xs.size)
    (some : j < ys.size) (link : 0 < k → ∀ x ∈ xs[i + k - 1]?, ∀ y ∈ ys[j]?, R x y) :
    GoesOn R front back xs ys (i + k) j (out ++ xs.extract i (i + k)) := by
  rw [← head?_drop_append some back] at link
  obtain ⟨onFirst, onSecond⟩ := isChain_stretch inside goesOn.onFirst goesOn.onSecond link
  refine ⟨?_, ?_⟩ <;>
    rwa [Array.toList_append, toList_extract_to, Nat.add_sub_cancel_left, ← List.append_assoc front]

theorem GoesOn.takeSecond (goesOn : GoesOn R front back xs ys i j out) (inside : j + k ≤ ys.size)
    (some : i < xs.size) (link : 0 < k → ∀ y ∈ ys[j + k - 1]?, ∀ x ∈ xs[i]?, R y x) :
    GoesOn R front back xs ys i (j + k) (out ++ ys.extract j (j + k)) := by
  rw [← head?_drop_append some back] at link
  obtain ⟨onSecond, onFirst⟩ := isChain_stretch inside goesOn.onSecond goesOn.onFirst link
  refine ⟨?_, ?_⟩ <;>
    rwa [Array.toList_append, toList_extract_to, Nat.add_sub_cancel_left, ← List.append_assoc front]

/-- At the end of the first run, the second one is appended. -/
theorem GoesOn.endFirst (goesOn : GoesOn R front back xs ys i j out) :
    (front ++ (out ++ ys.extract j).toList ++ back).IsChain R := by
  rw [Array.toList_append, toList_extract_from]
  simpa using goesOn.onSecond

/-- At the end of the second run, the first one is appended. -/
theorem GoesOn.endSecond (goesOn : GoesOn R front back xs ys i j out) :
    (front ++ (out ++ xs.extract i).toList ++ back).IsChain R := by
  rw [Array.toList_append, toList_extract_from]
  simpa using goesOn.onFirst

/-- What is left of the first run can come behind the second one. -/
theorem GoesOn.lastFirst (goesOn : GoesOn R front back xs ys i j out) (inside : j < ys.size)
    (one : xs.size - i = 1) (lasts : ∀ y ∈ ys.back?, ∀ x ∈ xs.back?, R y x) :
    (front ++ (out ++ ys.extract j ++ xs.extract i).toList ++ back).IsChain R := by
  have here : i < xs.size := by omega
  have ends : (front ++ out.toList ++ ys.toList.drop j).getLast? = ys.back? := by
    rw [List.getLast?_append, List.getLast?_drop, if_neg (by simp; omega), Array.getLast?_toList,
      Array.back?, Array.getElem?_eq_getElem (by omega), Option.some_or]
  have starts : (xs.toList.drop i ++ back).head? = xs.back? := by
    rw [head?_drop_append here, Array.back?, show xs.size - 1 = i by omega]
  have chained : (front ++ out.toList ++ ys.toList.drop j ++ (xs.toList.drop i ++ back)).IsChain R := by
    rw [List.isChain_append, ends, starts]
    have onSecond := goesOn.onSecond
    rw [← List.append_assoc] at onSecond
    exact ⟨onSecond.left_of_append, goesOn.onFirst.right_of_append, lasts⟩
  rw [Array.toList_append, Array.toList_append, toList_extract_from, toList_extract_from]
  simpa using chained

/-- **Merging from the lower end keeps the runs in relation.** -/
theorem mergeUp_isChain (directs : Across (Directs less R) xs.toList ys.toList)
    (lasts : ∀ y ∈ ys.back?, ∀ x ∈ xs.back?, R y x) {fuel eagerness : Nat} {pace : Pace}
    (enough : xs.size - i + (ys.size - j) ≤ fuel) (goesOn : GoesOn R front back xs ys i j out) :
    (front ++ (mergeUp less xs ys fuel i j eagerness pace out).items.toList ++ back).IsChain R := by
  induction fuel generalizing i j eagerness pace out with
  | zero =>
      unfold mergeUp
      rw [Array.extract_empty_of_size_le_start (show xs.size ≤ i by omega), Array.append_empty]
      exact goesOn.endFirst
  | succ fuel ih =>
      unfold mergeUp
      dsimp only
      -- one of the runs is used up, and the other one is appended
      by_cases done : (decide (ys.size - j = 0) || decide (xs.size - i = 0)) = true
      · rw [if_pos done]
        rw [Bool.or_eq_true, decide_eq_true_eq, decide_eq_true_eq] at done
        rcases done with done | done
        · rw [Array.extract_empty_of_size_le_start (show ys.size ≤ j by omega), Array.append_empty]
          exact goesOn.endSecond
        · rw [Array.extract_empty_of_size_le_start (show xs.size ≤ i by omega), Array.append_empty]
          exact goesOn.endFirst
      rw [if_neg done]
      simp only [Bool.or_eq_true, decide_eq_true_eq, not_or] at done
      -- the last element of the first run comes behind all of the second one
      by_cases one : xs.size - i = 1
      · rw [if_pos one]
        exact goesOn.lastFirst (by omega) one lasts
      rw [if_neg one]
      cases pace with
      | single firstWins secondWins =>
          dsimp only
          by_cases before : isBefore less xs[i]? ys j = true
          · rw [if_pos before]
            exact ih (by omega) (goesOn.takeSecond (by omega) (by omega)
              fun _ => swaps_of_isBefore directs before)
          · rw [if_neg before]
            exact ih (by omega) (goesOn.takeFirst (by omega) (by omega)
              fun _ => keeps_of_isBefore directs (Bool.eq_false_iff.mpr before))
      | stretches =>
          dsimp only
          -- a gallop through the first run, up to the next element of the second one
          have firsts : IsBorder (fun k => notAfter less ys[j]? xs (i + k)) (xs.size - i)
              (gallopUp _ _) := isBorder_gallopUp fun _ => by omega
          generalize gallopUp _ (xs.size - i) = first at firsts ⊢
          have inside := firsts.le
          have goesOn := goesOn.takeFirst (k := first) (by omega) (by omega) fun some => by
            rw [Nat.add_sub_assoc some]
            exact keeps_of_notAfter directs (firsts.holds some)
          by_cases last : (decide (0 < first) && decide (xs.size - (i + first) ≤ 1)) = true
          · rw [if_pos last]
            by_cases one : xs.size - (i + first) = 1
            · rw [if_pos one]
              exact goesOn.lastFirst (by omega) one lasts
            · rw [if_neg one]
              exact goesOn.endFirst
          rw [if_neg last]
          simp only [Bool.and_eq_true, decide_eq_true_eq, not_and] at last
          have more : i + first < xs.size := by
            rcases Nat.eq_zero_or_pos first with rfl | some <;> omega
          -- the element that has ended the gallop
          have goesOn := goesOn.takeSecond (k := 1) (by omega) more fun _ =>
            swaps_of_notAfter directs (firsts.fails (by omega))
          -- a gallop through the second run, up to the next element of the first one
          have seconds : IsBorder (fun k => isBefore less xs[i + first]? ys (j + 1 + k))
              (ys.size - j - 1) (gallopUp _ _) := isBorder_gallopUp fun answer => by
            have inside := lt_size_of_isBefore answer
            omega
          generalize gallopUp _ (ys.size - j - 1) = second at seconds ⊢
          have inside' := seconds.le
          have goesOn := goesOn.takeSecond (k := second) (by omega) more fun some => by
            rw [Nat.add_sub_assoc some]
            exact swaps_of_isBefore directs (seconds.holds some)
          by_cases done : ys.size - (j + 1 + second) = 0
          · rw [if_pos done]
            exact goesOn.endSecond
          · rw [if_neg done]
            refine ih (by omega) (goesOn.takeFirst (by omega) (by omega) fun _ => ?_)
            exact keeps_of_isBefore directs (seconds.fails (by omega))

end Up

/-! ## From the upper end -/

section Down

theorem getLast?_append_take {xs : Array α} {k : Nat} (some : 0 < k) (inside : k ≤ xs.size)
    (front : List α) : (front ++ xs.toList.take k).getLast? = xs[k - 1]? := by
  rw [List.getLast?_append, List.getLast?_take, if_neg (by omega), Array.getElem?_toList,
    Array.getElem?_eq_getElem (by omega), Option.some_or, Option.some_or]

theorem toList_extract_until (xs : Array α) (k : Nat) :
    (xs.extract 0 k).toList = xs.toList.take k := by
  rw [toList_extract_to, List.drop_zero, Nat.sub_zero]

/-- In front of what was merged comes either run, and in front of both comes `front`. -/
structure GoesBack (R : α → α → Prop) (front back : List α) (xs ys : Array α) (m n : Nat)
    (out : List α) : Prop where
  onFirst : (front ++ xs.toList.take m ++ (out ++ back)).IsChain R
  onSecond : (front ++ ys.toList.take n ++ (out ++ back)).IsChain R

variable {front back out : List α} {xs ys : Array α} {k m n : Nat}

/-- In front of a stretch of one run, the other run may stand where its last element
allows it. -/
theorem isChain_stretch_back {other tail : List α} (ordered : k ≤ m) (inside : m ≤ xs.size)
    (onRun : (front ++ xs.toList.take m ++ tail).IsChain R) (onOther : (other ++ tail).IsChain R)
    (link : k < m → ∀ y ∈ other.getLast?, ∀ x ∈ xs[k]?, R y x) :
    (front ++ xs.toList.take k ++ ((xs.toList.drop k).take (m - k) ++ tail)).IsChain R ∧
      (other ++ ((xs.toList.drop k).take (m - k) ++ tail)).IsChain R := by
  have parts : xs.toList.take k ++ (xs.toList.drop k).take (m - k) = xs.toList.take m := by
    rw [← List.take_add, Nat.add_sub_cancel' ordered]
  have goesOn : (front ++ xs.toList.take k ++
      ((xs.toList.drop k).take (m - k) ++ tail)).IsChain R := by
    rwa [← List.append_assoc, List.append_assoc front, parts]
  refine ⟨goesOn, ?_⟩
  rcases Nat.eq_or_lt_of_le ordered with rfl | some
  · simpa using onOther
  · rw [List.isChain_append]
    refine ⟨onOther.left_of_append, goesOn.right_of_append, ?_⟩
    rw [List.head?_append, List.head?_take, if_neg (by omega), List.head?_drop,
      Array.getElem?_toList, Array.getElem?_eq_getElem (by omega), Option.some_or]
    rw [Array.getElem?_eq_getElem (by omega)] at link
    exact link some

theorem GoesBack.takeFirst (goesBack : GoesBack R front back xs ys m n out) (ordered : k ≤ m)
    (inside : m ≤ xs.size) (some : 0 < n) (inside' : n ≤ ys.size)
    (link : k < m → ∀ y ∈ ys[n - 1]?, ∀ x ∈ xs[k]?, R y x) :
    GoesBack R front back xs ys k n ((xs.extract k m).toList ++ out) := by
  rw [← getLast?_append_take some inside' front] at link
  obtain ⟨onFirst, onSecond⟩ :=
    isChain_stretch_back ordered inside goesBack.onFirst goesBack.onSecond link
  refine ⟨?_, ?_⟩ <;> rwa [toList_extract_to, List.append_assoc _ out]

theorem GoesBack.takeSecond (goesBack : GoesBack R front back xs ys m n out) (ordered : k ≤ n)
    (inside : n ≤ ys.size) (some : 0 < m) (inside' : m ≤ xs.size)
    (link : k < n → ∀ x ∈ xs[m - 1]?, ∀ y ∈ ys[k]?, R x y) :
    GoesBack R front back xs ys m k ((ys.extract k n).toList ++ out) := by
  rw [← getLast?_append_take some inside' front] at link
  obtain ⟨onSecond, onFirst⟩ :=
    isChain_stretch_back ordered inside goesBack.onSecond goesBack.onFirst link
  refine ⟨?_, ?_⟩ <;> rwa [toList_extract_to, List.append_assoc _ out]

/-- At the lower end of the first run, the second one is put in front. -/
theorem GoesBack.endFirst (goesBack : GoesBack R front back xs ys m n out) :
    (front ++ ((ys.extract 0 n).toList ++ out) ++ back).IsChain R := by
  rw [toList_extract_until]
  simpa using goesBack.onSecond

/-- At the lower end of the second run, the first one is put in front. -/
theorem GoesBack.endSecond (goesBack : GoesBack R front back xs ys m n out) :
    (front ++ ((xs.extract 0 m).toList ++ out) ++ back).IsChain R := by
  rw [toList_extract_until]
  simpa using goesBack.onFirst

/-- The first element of the second run can come in front of the first run. -/
theorem GoesBack.firstSecond (goesBack : GoesBack R front back xs ys m 1 out) (some : 0 < m)
    (inside : m ≤ xs.size) (inside' : 1 ≤ ys.size)
    (firsts : ∀ y ∈ ys[0]?, ∀ x ∈ xs[0]?, R y x) :
    (front ++ ((ys.extract 0 1).toList ++ (xs.extract 0 m).toList ++ out) ++ back).IsChain R := by
  have starts : (xs.toList.take m ++ (out ++ back)).head? = xs[0]? := by
    rw [List.head?_append, List.head?_take, if_neg (by omega), List.head?_eq_getElem?,
      Array.getElem?_toList, Array.getElem?_eq_getElem (by omega), Option.some_or]
  have chained : (front ++ ys.toList.take 1 ++ (xs.toList.take m ++ (out ++ back))).IsChain R := by
    rw [List.isChain_append, getLast?_append_take Nat.zero_lt_one inside', starts]
    have onFirst := goesBack.onFirst
    rw [List.append_assoc] at onFirst
    exact ⟨goesBack.onSecond.left_of_append, onFirst.right_of_append, firsts⟩
  rw [toList_extract_until, toList_extract_until]
  simpa using chained

/-- **Merging from the upper end keeps the runs in relation.** -/
theorem mergeDown_isChain (directs : Across (Directs less R) xs.toList ys.toList)
    (firsts : ∀ y ∈ ys[0]?, ∀ x ∈ xs[0]?, R y x) {fuel eagerness : Nat} {pace : Pace}
    (enough : m + n ≤ fuel) (inside : m ≤ xs.size) (inside' : n ≤ ys.size)
    (goesBack : GoesBack R front back xs ys m n out) :
    (front ++ (mergeDown less xs ys fuel m n eagerness pace out).items.toList ++
      back).IsChain R := by
  induction fuel generalizing m n eagerness pace out with
  | zero =>
      obtain rfl : m = 0 := by omega
      unfold mergeDown
      rw [Array.extract_zero, Array.toList_empty, List.nil_append]
      exact goesBack.endFirst
  | succ fuel ih =>
      unfold mergeDown
      by_cases done : (decide (m = 0) || decide (n = 0)) = true
      · rw [if_pos done]
        rw [Bool.or_eq_true, decide_eq_true_eq, decide_eq_true_eq] at done
        rcases done with rfl | rfl
        · rw [Array.extract_zero, Array.toList_empty, List.nil_append]
          exact goesBack.endFirst
        · rw [Array.extract_zero, Array.toList_empty, List.append_nil]
          exact goesBack.endSecond
      rw [if_neg done]
      simp only [Bool.or_eq_true, decide_eq_true_eq, not_or] at done
      -- the first element of the second run comes in front of all of the first one
      by_cases one : n = 1
      · subst one
        rw [if_pos rfl]
        exact goesBack.firstSecond (by omega) inside inside' firsts
      rw [if_neg one]
      cases pace with
      | single firstWins secondWins =>
          dsimp only
          by_cases before : isBefore less xs[m - 1]? ys (n - 1) = true
          · rw [if_pos before]
            exact ih (by omega) (by omega) inside' (goesBack.takeFirst (by omega) inside (by omega)
              inside' fun _ => swaps_of_isBefore directs before)
          · rw [if_neg before]
            exact ih (by omega) inside (by omega) (goesBack.takeSecond (by omega) inside' (by omega)
              inside fun _ => keeps_of_isBefore directs (Bool.eq_false_iff.mpr before))
      | stretches =>
          dsimp only
          -- a gallop down the first run, past all that comes behind the second one
          have lower := isBorder_gallopDown (notAfter less ys[n - 1]? xs) m
          generalize gallopDown (notAfter less ys[n - 1]? xs) m = m' at lower ⊢
          have goesBack := goesBack.takeFirst lower.le inside (by omega) inside'
            fun some => swaps_of_notAfter directs (lower.fails some)
          by_cases none : m' = 0
          · rw [if_pos none]
            exact goesBack.endFirst
          rw [if_neg none]
          have le := lower.le
          have goesBack := goesBack.takeSecond (k := n - 1) (by omega) inside' (by omega) (by omega)
            fun _ => keeps_of_notAfter directs (lower.holds (by omega))
          by_cases one : n - 1 = 1
          · rw [if_pos one]
            rw [one] at goesBack ⊢
            exact goesBack.firstSecond (by omega) (by omega) (by omega) firsts
          rw [if_neg one]
          -- a gallop down the second run, past all that comes behind the first one
          have lower' := isBorder_gallopDown (isBefore less xs[m' - 1]? ys) (n - 1)
          generalize gallopDown (isBefore less xs[m' - 1]? ys) (n - 1) = n' at lower' ⊢
          have le' := lower'.le
          have goesBack := goesBack.takeSecond lower'.le (by omega) (by omega) (by omega)
            fun some => keeps_of_isBefore directs (lower'.fails some)
          by_cases few : n' ≤ 1
          · rw [if_pos few]
            rcases Nat.eq_zero_or_pos n' with rfl | some
            · rw [Array.extract_zero, Array.toList_empty, List.nil_append]
              exact goesBack.endSecond
            · obtain rfl : n' = 1 := by omega
              exact goesBack.firstSecond (by omega) (by omega) (by omega) firsts
          · rw [if_neg few]
            refine ih (by omega) (by omega) (by omega) (goesBack.takeFirst (by omega) (by omega)
              (by omega) (by omega) fun _ => ?_)
            exact swaps_of_isBefore directs (lower'.holds (by omega))

end Down

/-! ## Merging -/

theorem back?_extract_from {xs : Array α} {i : Nat} (some : i < xs.size) :
    (xs.extract i).back? = xs.back? := by
  rw [← Array.getLast?_toList, toList_extract_from, List.getLast?_drop, if_neg (by simp; omega),
    Array.getLast?_toList]

theorem back?_extract_until {xs : Array α} {k : Nat} (some : 0 < k) (inside : k ≤ xs.size) :
    (xs.extract 0 k).back? = xs[k - 1]? := by
  have last := getLast?_append_take some inside []
  rwa [List.nil_append, ← toList_extract_until, Array.getLast?_toList] at last

section Borders

variable {xs ys : Array α} (directs : Across (Directs less R) xs.toList ys.toList)
  (first : xs.toList.IsChain R) (second : ys.toList.IsChain R)

include directs first second

/-- What is not before the last element of the first run may come behind that run. -/
theorem isChain_drop_isBefore {stop : Nat}
    (stops : IsBorder (isBefore less xs.back? ys) ys.size stop) :
    (xs.toList ++ ys.toList.drop stop).IsChain R := by
  rw [List.isChain_append, Array.getLast?_toList]
  refine ⟨first, second.drop stop, fun x last y next => ?_⟩
  rw [List.head?_drop, Array.getElem?_toList] at next
  have inside : stop < ys.size := (Array.getElem?_eq_some_iff.mp next).1
  exact keeps_of_isBefore directs (stops.fails inside) x last y next

/-- What is not after the first element of the second run may come in front of that run. -/
theorem isChain_take_notAfter {start : Nat}
    (starts : IsBorder (notAfter less ys[0]? xs) xs.size start) :
    (xs.toList.take start ++ ys.toList).IsChain R := by
  rw [List.isChain_append]
  refine ⟨first.take start, second, ?_⟩
  rcases Nat.eq_zero_or_pos start with rfl | some
  · exact nofun
  · have last := getLast?_append_take some starts.le []
    rw [List.nil_append] at last
    rw [last, List.head?_eq_getElem?, Array.getElem?_toList]
    exact keeps_of_notAfter directs (starts.holds some)

end Borders

/-- **A merged run is in relation** if both runs are. -/
theorem merge_isChain {eagerness : Nat} {xs ys : Array α}
    (directs : Across (Directs less R) xs.toList ys.toList) (first : xs.toList.IsChain R)
    (second : ys.toList.IsChain R) : (merge less eagerness xs ys).items.toList.IsChain R := by
  unfold merge
  dsimp only
  have starts : IsBorder (notAfter less ys[0]? xs) xs.size (gallopUp _ _) :=
    isBorder_gallopUp lt_size_of_notAfter
  generalize gallopUp _ xs.size = start at starts ⊢
  have before := isChain_take_notAfter directs first second starts
  by_cases apart : start = xs.size
  · rwa [if_pos apart, Array.toList_append, ← take_size xs, ← apart]
  rw [if_neg apart]
  have stops := isBorder_gallopDown (isBefore less xs.back? ys) ys.size
  generalize gallopDown _ ys.size = stop at stops ⊢
  have behind := isChain_drop_isBefore directs first second stops
  have le := starts.le
  have le' := stops.le
  by_cases none : stop = 0
  · rw [if_pos none, Array.toList_append]
    rwa [none, List.drop_zero] at behind
  rw [if_neg none]
  have across : Across (Directs less R) (xs.extract start).toList (ys.extract 0 stop).toList := by
    rw [toList_extract_from, toList_extract_until]
    exact directs.mono (List.drop_subset _ _) (List.take_subset _ _)
  have ends : ∀ y ∈ (ys.extract 0 stop).back?, ∀ x ∈ (xs.extract start).back?, R y x := by
    rw [back?_extract_until (by omega) le', back?_extract_from (by omega)]
    exact swaps_of_isBefore directs (stops.holds (by omega))
  have begins : ∀ y ∈ (ys.extract 0 stop)[0]?, ∀ x ∈ (xs.extract start)[0]?, R y x := by
    rw [Array.getElem?_extract, Array.getElem?_extract, if_pos (by omega), if_pos (by omega),
      Nat.add_zero, Nat.add_zero]
    exact swaps_of_notAfter directs (starts.fails (by omega))
  -- what is in place already stands in front of and behind the merged runs
  have onFirst : (xs.toList.take start ++ ((xs.extract start).toList ++
      ys.toList.drop stop)).IsChain R := by
    rwa [toList_extract_from, ← List.append_assoc, List.take_append_drop]
  have onSecond : (xs.toList.take start ++ ((ys.extract 0 stop).toList ++
      ys.toList.drop stop)).IsChain R := by
    rwa [toList_extract_until, List.take_append_drop]
  rw [Array.toList_append, Array.toList_append, toList_extract_until xs, toList_extract_from ys]
  split
  · have goesOn : GoesOn R (xs.toList.take start) (ys.toList.drop stop) (xs.extract start)
        (ys.extract 0 stop) 0 0 #[] := by
      refine ⟨?_, ?_⟩ <;> rwa [Array.toList_empty, List.append_nil, List.drop_zero]
    refine mergeUp_isChain across ends (by simp; omega) ?_
    have goesOn := goesOn.takeSecond (k := 1) (by simp; omega) (by simp; omega) fun _ => begins
    rwa [Array.empty_append] at goesOn
  · have goesBack : GoesBack R (xs.toList.take start) (ys.toList.drop stop) (xs.extract start)
        (ys.extract 0 stop) (xs.extract start).size (ys.extract 0 stop).size [] := by
      refine ⟨?_, ?_⟩ <;> rwa [List.nil_append, take_size, List.append_assoc]
    refine mergeDown_isChain across begins (by simp; omega) (by simp) (by simp) ?_
    have goesBack := goesBack.takeFirst (k := (xs.extract start).size - 1) (by omega) (Nat.le_refl _)
      (by simp; omega) (Nat.le_refl _) fun _ => ends
    rwa [List.append_nil] at goesBack

/-! ## Nothing is lost -/

section Counts

variable [BEq α] (a : α)

theorem count_stretch (xs : Array α) (i k : Nat) :
    (xs.extract i (i + k)).toList.count a + (xs.toList.drop (i + k)).count a =
      (xs.toList.drop i).count a := by
  rw [toList_extract_to, Nat.add_sub_cancel_left, ← List.count_append, ← List.drop_drop,
    List.take_append_drop]

theorem count_stretch_back (xs : Array α) {k m : Nat} (ordered : k ≤ m) :
    (xs.toList.take k).count a + (xs.extract k m).toList.count a = (xs.toList.take m).count a := by
  rw [toList_extract_to, ← List.count_append, ← List.take_add, Nat.add_sub_cancel' ordered]

theorem count_drop_of_le {xs : Array α} {i : Nat} (outside : xs.size ≤ i) :
    (xs.toList.drop i).count a = 0 := by
  rw [List.drop_of_length_le (by simpa using outside), List.count_nil]

theorem count_mergeUp (xs ys : Array α) (fuel i j eagerness : Nat) (pace : Pace) (out : Array α) :
    (mergeUp less xs ys fuel i j eagerness pace out).items.toList.count a =
      out.toList.count a + (xs.toList.drop i).count a + (ys.toList.drop j).count a := by
  induction fuel generalizing i j eagerness pace out with
  | zero => simp only [mergeUp, Array.toList_append, List.count_append, toList_extract_from]
  | succ fuel ih =>
      unfold mergeUp
      dsimp only
      by_cases done : (decide (ys.size - j = 0) || decide (xs.size - i = 0)) = true
      · simp only [if_pos done, Array.toList_append, List.count_append, toList_extract_from]
      rw [if_neg done]
      by_cases one : xs.size - i = 1
      · simp only [if_pos one, Array.toList_append, List.count_append, toList_extract_from]
        omega
      rw [if_neg one]
      cases pace with
      | single firstWins secondWins =>
          have first := count_stretch a xs i 1
          have second := count_stretch a ys j 1
          dsimp only
          split <;> rw [ih, Array.toList_append, List.count_append] <;> omega
      | stretches =>
          dsimp only
          generalize gallopUp _ (xs.size - i) = k
          generalize gallopUp _ (ys.size - j - 1) = l
          -- a round takes a stretch and an element from each of the runs
          have first := count_stretch a xs i k
          have second := count_stretch a ys j 1
          have third := count_stretch a ys (j + 1) l
          have fourth := count_stretch a xs (i + k) 1
          split_ifs with last one done
          · simp only [Array.toList_append, List.count_append, toList_extract_from]
            omega
          · rw [Bool.and_eq_true, decide_eq_true_eq, decide_eq_true_eq] at last
            have none := count_drop_of_le a (show xs.size ≤ i + k by omega)
            simp only [Array.toList_append, List.count_append, toList_extract_from ys]
            omega
          · have none := count_drop_of_le a (show ys.size ≤ j + 1 + l by omega)
            simp only [Array.toList_append, List.count_append, toList_extract_from xs]
            omega
          · simp only [ih, Array.toList_append, List.count_append]
            omega

theorem count_mergeDown (xs ys : Array α) (fuel m n eagerness : Nat) (pace : Pace)
    (out : List α) : (mergeDown less xs ys fuel m n eagerness pace out).items.toList.count a =
      (xs.toList.take m).count a + (ys.toList.take n).count a + out.count a := by
  induction fuel generalizing m n eagerness pace out with
  | zero => simp only [mergeDown, List.count_append, toList_extract_until]
  | succ fuel ih =>
      unfold mergeDown
      by_cases done : (decide (m = 0) || decide (n = 0)) = true
      · simp only [if_pos done, List.count_append, toList_extract_until]
      rw [if_neg done]
      by_cases one : n = 1
      · simp only [if_pos one, List.count_append, toList_extract_until]
        omega
      rw [if_neg one]
      simp only [Bool.or_eq_true, decide_eq_true_eq, not_or] at done
      cases pace with
      | single firstWins secondWins =>
          have first := count_stretch_back a xs (show m - 1 ≤ m by omega)
          have second := count_stretch_back a ys (show n - 1 ≤ n by omega)
          dsimp only
          split <;> rw [ih, List.count_append] <;> omega
      | stretches =>
          dsimp only
          have lower := (isBorder_gallopDown (notAfter less ys[n - 1]? xs) m).le
          generalize gallopDown _ m = m' at lower ⊢
          have lower' := (isBorder_gallopDown (isBefore less xs[m' - 1]? ys) (n - 1)).le
          generalize gallopDown _ (n - 1) = n' at lower' ⊢
          -- a round takes a stretch and an element from each of the runs
          have first := count_stretch_back a xs lower
          have second := count_stretch_back a ys (show n - 1 ≤ n by omega)
          have third := count_stretch_back a ys lower'
          have fourth := count_stretch_back a xs (show m' - 1 ≤ m' by omega)
          split_ifs with none one few
          · rw [none, List.take_zero, List.count_nil] at first
            simp only [List.count_append, toList_extract_until, none]
            omega
          · rw [one] at second
            simp only [List.count_append, toList_extract_until, one]
            omega
          · simp only [List.count_append, toList_extract_until]
            omega
          · simp only [ih, List.count_append]
            omega

/-- A merge has every element as often as both runs together. -/
theorem count_merge (eagerness : Nat) (xs ys : Array α) :
    (merge less eagerness xs ys).items.toList.count a = xs.toList.count a + ys.toList.count a := by
  unfold merge
  dsimp only
  generalize gallopUp _ xs.size = start
  generalize gallopDown _ ys.size = stop
  have front := count_stretch a xs 0 start
  have back := count_stretch a ys 0 stop
  rw [Nat.zero_add, List.drop_zero] at front back
  split_ifs with apart none
  · simp only [Array.toList_append, List.count_append]
  · simp only [Array.toList_append, List.count_append]
  · have first := count_stretch a (ys.extract 0 stop) 0 1
    rw [Nat.zero_add, List.drop_zero] at first
    simp only [Array.toList_append, List.count_append, count_mergeUp, List.drop_zero,
      toList_extract_from xs, toList_extract_from ys]
    omega
  · have last := count_stretch_back a (xs.extract start) (Nat.sub_le (xs.extract start).size 1)
    have rest : (xs.extract start).toList.count a = (xs.toList.drop start).count a := by
      rw [toList_extract_from]
    rw [take_size] at last
    simp only [Array.toList_append, List.count_append, count_mergeDown, take_size,
      toList_extract_from ys]
    omega

end Counts

/-- **Merging loses nothing.** -/
theorem merge_perm (less : α → α → Bool) (eagerness : Nat) (xs ys : Array α) :
    (merge less eagerness xs ys).items.toList.Perm (xs.toList ++ ys.toList) := by
  classical
  rw [List.perm_iff_count]
  intro a
  rw [count_merge, List.count_append]

end TernLang.Sorting
