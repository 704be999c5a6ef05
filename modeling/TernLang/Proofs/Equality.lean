import Mathlib.Data.Finset.Prod
import TernLang.Proofs.Heap.Bisimilarity
import TernLang.Proofs.Heap.Readings

/-! # Equality is bisimilarity

**The comparison of values decides whether they are bisimilar**, in every heap, however
lists contain themselves and each other (`equal_decides`).

A pair of lists that was met is never taken back. If the comparison succeeds, the pairs
that were met are a bisimulation: the lists of each were found to match on the
supposition that all of the pairs do (`Explains`). The comparison ends because each level
of nesting adds a pair of lists that was not met before (`unseen`).
-/

namespace TernLang

/-- Without a look at the elements of lists, values are equal if they are the same
object or equal constants. -/
theorem equalScalars_iff (a b : Value) :
    equalScalars a b = true ↔ a = b ∨ ScalarsEqual a b := by
  constructor
  · intro equal
    unfold equalScalars at equal
    split at equal
    case h_3 x i y j =>
        rcases (equalNumbers_iff x i y j).mp equal with equal | same
        · exact .inr (.number equal)
        · exact .inl same
    case h_1 => exact .inl rfl
    case h_8 => cases equal
    all_goals exact .inl (congrArg _ (beq_iff_eq.mp equal))
  · rintro (rfl | equal)
    · cases a with
      | null => rfl
      | number x i => exact (equalNumbers_iff x i x i).mpr (.inr rfl)
      | _ => exact beq_self_eq_true _
    · cases equal with
      | bool b => exact beq_self_eq_true b
      | @number x y i j equal => exact (equalNumbers_iff x i y j).mpr (.inl equal)
      | string s => exact beq_self_eq_true s

namespace Heap

variable {h : Heap} {compare : ListPairs → Value → Value → Option (Bool × ListPairs)}

/-! ## One comparison -/

/-- Two values are two lists, or they are compared without a look at the elements. -/
theorem lists_or_scalars (a b : Value) :
    (∃ p q, a = .list p ∧ b = .list q) ∨
      (∀ p q, a = .list p → b ≠ .list q) ∧
        ∀ (h : Heap) (room : Nat) (seen : ListPairs),
          h.equalWith (room + 1) seen a b = some (equalScalars a b, seen) := by
  by_cases lists : ∃ p q, a = .list p ∧ b = .list q
  · exact .inl lists
  · have other : ∀ p q, a = .list p → b ≠ .list q := fun p q left right => lists ⟨p, q, left, right⟩
    refine .inr ⟨other, fun h room seen => ?_⟩
    unfold equalWith
    split
    · exact absurd rfl (other _ _ rfl)
    · rfl

/-- The values are equal if the pairs that were met are. -/
inductive Supposed (seen : ListPairs) : Value → Value → Prop
  | same (a : Value) : Supposed seen a a
  | scalars {a b : Value} : ScalarsEqual a b → Supposed seen a b
  | met {p q : ListRef} : (p, q) ∈ seen → Supposed seen (.list p) (.list q)

/-- The pairs in `met` that are not in `seen` have elements that are equal if all pairs
in `met` are. -/
structure Explains (h : Heap) (seen met : ListPairs) : Prop where
  grows : seen ⊆ met
  explained : ∀ p q, (p, q) ∈ met →
    (p, q) ∈ seen ∨ List.Forall₂ (Supposed met) (h.items p).toList (h.items q).toList

/-- What is supposed equal stays so when more pairs are met. -/
theorem Supposed.mono {seen met : ListPairs} {a b : Value} (supposed : Supposed seen a b)
    (grows : seen ⊆ met) : Supposed met a b := by
  cases supposed with
  | same a => exact .same a
  | scalars equal => exact .scalars equal
  | met pair => exact .met (grows pair)

theorem Explains.refl (seen : ListPairs) : h.Explains seen seen :=
  ⟨List.Subset.refl seen, fun _ _ => .inl⟩

theorem Explains.trans {seen met more : ListPairs} (first : h.Explains seen met)
    (second : h.Explains met more) : h.Explains seen more := by
  refine ⟨List.Subset.trans first.grows second.grows, fun p q pair => ?_⟩
  rcases second.explained p q pair with before | elements
  · refine (first.explained p q before).imp_right fun elements => ?_
    exact elements.imp fun _ _ supposed => supposed.mono second.grows
  · exact .inr elements

/-- All pairs that were met from the start on are a bisimulation. -/
theorem Explains.bisimulation {met : ListPairs} (explains : h.Explains [] met) :
    h.Bisimulation (Supposed met) := by
  intro a b supposed
  cases supposed with
  | same a => exact .same a
  | scalars equal => exact .scalars equal
  | met pair =>
      rcases explains.explained _ _ pair with none | elements
      · cases none
      · exact .lists elements

/-- A comparison of several pairs explains what each of them explains. -/
theorem allEqual_explains (explains : ∀ {seen met a b}, compare seen a b = some (true, met) →
      h.Explains seen met ∧ Supposed met a b) {seen met : ListPairs}
    {pairs : List (Value × Value)} (equal : allEqual compare seen pairs = some (true, met)) :
    h.Explains seen met ∧ ∀ {x y}, (x, y) ∈ pairs → Supposed met x y := by
  induction pairs generalizing seen with
  | nil =>
      cases equal
      exact ⟨.refl _, nofun⟩
  | cons pair rest ih =>
      obtain ⟨x, y⟩ := pair
      unfold allEqual at equal
      split at equal
      · cases equal
      · cases equal
      · rename_i mid first
        obtain ⟨before, supposed⟩ := explains first
        obtain ⟨after, others⟩ := ih equal
        refine ⟨before.trans after, fun mem => ?_⟩
        rcases List.mem_cons.mp mem with same | later
        · cases same
          exact supposed.mono after.grows
        · exact others later

/-- **A comparison that succeeds explains the pairs that it met.** -/
theorem equalWith_explains (room : Nat) {seen met : ListPairs} {a b : Value}
    (equal : h.equalWith room seen a b = some (true, met)) :
    h.Explains seen met ∧ Supposed met a b := by
  induction room generalizing seen met a b with
  | zero => cases equal
  | succ room ih =>
      rcases lists_or_scalars a b with ⟨p, q, rfl, rfl⟩ | ⟨-, scalars⟩
      · rw [equalWith_lists] at equal
        split at equal
        · rename_i same
          cases equal
          exact ⟨.refl seen, same ▸ .same _⟩
        · split at equal
          · cases equal
          · rename_i sizes
            split at equal
            · rename_i known
              cases equal
              exact ⟨.refl seen, .met (by simpa using known)⟩
            · -- the pair is supposed while its elements are compared, which explain it
              obtain ⟨inner, elements⟩ := allEqual_explains ih equal
              have here : (p, q) ∈ met := inner.grows List.mem_cons_self
              refine ⟨⟨fun pair mem => inner.grows (List.mem_cons_of_mem _ mem), ?_⟩, .met here⟩
              intro p' q' pair
              rcases inner.explained p' q' pair with before | explained
              · rcases List.mem_cons.mp before with same | before
                · cases same
                  exact .inr (List.forall₂_iff_zip.mpr ⟨by simpa using sizes, elements⟩)
                · exact .inl before
              · exact .inr explained
      · rw [scalars, Option.some_inj, Prod.mk.injEq] at equal
        obtain ⟨equal, rfl⟩ := equal
        rcases (equalScalars_iff a b).mp equal with rfl | equal
        · exact ⟨.refl seen, .same a⟩
        · exact ⟨.refl seen, .scalars equal⟩

/-- A comparison of several pairs finds them equal if it does not find one of them
unequal. -/
theorem allEqual_eq_true {R : Value → Value → Prop}
    (holds : ∀ {seen met a b same}, R a b → compare seen a b = some (same, met) → same = true)
    {seen met : ListPairs} {pairs : List (Value × Value)} {same : Bool}
    (all : ∀ {x y}, (x, y) ∈ pairs → R x y)
    (found : allEqual compare seen pairs = some (same, met)) : same = true := by
  induction pairs generalizing seen with
  | nil =>
      cases found
      rfl
  | cons pair rest ih =>
      obtain ⟨x, y⟩ := pair
      unfold allEqual at found
      split at found
      · cases found
      · rename_i first
        cases holds (all List.mem_cons_self) first
      · exact ih (fun mem => all (List.mem_cons_of_mem _ mem)) found

/-- **A comparison of bisimilar values does not fail.** -/
theorem equalWith_of_bisimilar (room : Nat) {seen met : ListPairs} {a b : Value} {same : Bool}
    (related : h.Bisimilar a b) (found : h.equalWith room seen a b = some (same, met)) :
    same = true := by
  induction room generalizing seen met a b same with
  | zero => cases found
  | succ room ih =>
      have matched := h.bisimulation_bisimilar a b related
      rcases lists_or_scalars a b with ⟨p, q, rfl, rfl⟩ | ⟨other, scalars⟩
      · rw [equalWith_lists] at found
        split at found
        · cases found
          rfl
        · rename_i distinct
          cases matched with
          | same => exact absurd rfl distinct
          | scalars equal => cases equal
          | lists inner =>
              obtain ⟨sizes, inner⟩ := List.forall₂_iff_zip.mp inner
              rw [if_neg (by simpa using sizes)] at found
              split at found
              · cases found
                rfl
              · exact allEqual_eq_true ih inner found
      · rw [scalars, Option.some_inj, Prod.mk.injEq] at found
        obtain ⟨rfl, -⟩ := found
        rw [equalScalars_iff]
        cases matched with
        | same => exact .inl rfl
        | scalars equal => exact .inr equal
        | lists => exact absurd rfl (other _ _ rfl)

/-! ## The comparison ends -/

/-- Pairs of lists are never taken back. -/
theorem allEqual_grows
    (grows : ∀ {seen met a b same}, compare seen a b = some (same, met) → seen ⊆ met)
    {seen met : ListPairs} {pairs : List (Value × Value)} {same : Bool}
    (found : allEqual compare seen pairs = some (same, met)) : seen ⊆ met := by
  induction pairs generalizing seen with
  | nil =>
      cases found
      exact List.Subset.refl _
  | cons pair rest ih =>
      obtain ⟨x, y⟩ := pair
      unfold allEqual at found
      split at found
      · cases found
      · rename_i first
        cases found
        exact grows first
      · rename_i first
        exact List.Subset.trans (grows first) (ih found)

/-- The pairs that were met are kept. -/
theorem equalWith_grows (room : Nat) {seen met : ListPairs} {a b : Value} {same : Bool}
    (found : h.equalWith room seen a b = some (same, met)) : seen ⊆ met := by
  induction room generalizing seen met a b same with
  | zero => cases found
  | succ room ih =>
      rcases lists_or_scalars a b with ⟨p, q, rfl, rfl⟩ | ⟨-, scalars⟩
      · rw [equalWith_lists] at found
        split_ifs at found
        · cases found
          exact List.Subset.refl _
        · cases found
          exact List.Subset.refl _
        · cases found
          exact List.Subset.refl _
        · exact List.Subset.trans (List.subset_cons_self _ _) (allEqual_grows ih found)
      · rw [scalars] at found
        cases found
        exact List.Subset.refl _

/-- The pairs of lists in the heap that were not met. -/
def unseen (h : Heap) (seen : ListPairs) : Finset (Nat × Nat) :=
  (Finset.range h.lists.size ×ˢ Finset.range h.lists.size).filter fun pair =>
    (⟨pair.1⟩, ⟨pair.2⟩) ∉ seen

/-- There are only so many pairs of lists that were not met. -/
theorem card_unseen_le (h : Heap) (seen : ListPairs) :
    (h.unseen seen).card ≤ h.lists.size ^ 2 := by
  refine (Finset.card_filter_le _ _).trans ?_
  rw [Finset.card_product, Finset.card_range, sq]

theorem unseen_mono {seen met : ListPairs} (grows : seen ⊆ met) : h.unseen met ⊆ h.unseen seen :=
  Finset.monotone_filter_right _ fun _ _ fresh mem => fresh (grows mem)

/-- A new pair of lists that are in the heap is one pair less. -/
theorem card_unseen_lt {seen : ListPairs} {p q : ListRef} (first : p.id < h.lists.size)
    (second : q.id < h.lists.size) (fresh : (p, q) ∉ seen) :
    (h.unseen ((p, q) :: seen)).card < (h.unseen seen).card := by
  refine Finset.card_lt_card (Finset.ssubset_iff_subset_ne.mpr
    ⟨unseen_mono (List.subset_cons_self _ _), fun same => ?_⟩)
  have here : (p.id, q.id) ∈ h.unseen seen := by simp [unseen, first, second, fresh]
  rw [← same] at here
  simp [unseen] at here

/-- A list with elements is in the heap. -/
theorem lt_size_of_items {p : ListRef} (some : 0 < (h.items p).size) : p.id < h.lists.size := by
  by_contra outside
  have none : h.lists[p.id]? = none := Array.getElem?_eq_none (Nat.le_of_not_lt outside)
  simp [items, none] at some

/-- A comparison of several pairs ends if each of them does, whatever was met before. -/
theorem allEqual_isSome
    (grows : ∀ {seen met a b same}, compare seen a b = some (same, met) → seen ⊆ met)
    {seen : ListPairs} (ends : ∀ met, seen ⊆ met → ∀ a b, (compare met a b).isSome)
    (pairs : List (Value × Value)) : (allEqual compare seen pairs).isSome := by
  induction pairs generalizing seen with
  | nil => rfl
  | cons pair rest ih =>
      obtain ⟨x, y⟩ := pair
      unfold allEqual
      split
      · rename_i stopped
        have first := ends seen (List.Subset.refl seen) x y
        rw [stopped] at first
        cases first
      · rfl
      · rename_i first
        exact ih fun met more => ends met (List.Subset.trans (grows first) more)

/-- **A comparison ends** with room for all pairs of lists that were not met. -/
theorem equalWith_isSome (room : Nat) {seen : ListPairs} (enough : (h.unseen seen).card < room)
    (a b : Value) : (h.equalWith room seen a b).isSome := by
  induction room generalizing seen a b with
  | zero => cases enough
  | succ room ih =>
      rcases lists_or_scalars a b with ⟨p, q, rfl, rfl⟩ | ⟨-, scalars⟩
      · rw [equalWith_lists]
        split_ifs with _ sizes known
        · rfl
        · rfl
        · rfl
        · rw [not_not] at sizes
          by_cases empty : (h.items p).size = 0
          · rw [Array.eq_empty_of_size_eq_zero empty]
            rfl
          · -- both lists are in the heap, so they are a new pair of it
            have some : 0 < (h.items p).size := Nat.pos_of_ne_zero empty
            have fresh : (p, q) ∉ seen := by simpa using known
            have less := card_unseen_lt (lt_size_of_items some)
              (lt_size_of_items (sizes ▸ some)) fresh
            refine allEqual_isSome (equalWith_grows room) (fun met more x y => ih ?_ x y) _
            have fewer := Finset.card_le_card (unseen_mono (h := h) more)
            omega
      · rw [scalars]
        rfl

/-! ## Equality -/

/-- With room for every pair of lists, a comparison has an answer. -/
theorem exists_equal {room : Nat} (enough : h.lists.size ^ 2 < room) (a b : Value) :
    ∃ same, h.equal room a b = some same := by
  have ends := equalWith_isSome room ((h.card_unseen_le []).trans_lt enough) a b
  obtain ⟨result, found⟩ := Option.isSome_iff_exists.mp ends
  exact ⟨result.1, by rw [equal, found, Option.map_some]⟩

/-- An answer is yes exactly if the values are bisimilar. -/
theorem equal_iff {room : Nat} {a b : Value} {same : Bool} (found : h.equal room a b = some same) :
    same = true ↔ h.Bisimilar a b := by
  obtain ⟨⟨_, met⟩, compared, rfl⟩ := Option.map_eq_some_iff.mp found
  constructor
  · rintro rfl
    obtain ⟨explains, supposed⟩ := equalWith_explains room compared
    exact ⟨_, explains.bisimulation, supposed⟩
  · exact fun related => equalWith_of_bisimilar room related compared

/-- The operator gives the answer of the comparison. -/
theorem binary_equal_iff (h : Heap) (room : Nat) (a b : Value) (same : Bool) :
    h.binary room .equal a b = .ok (.value (.bool same)) ↔ h.equal room a b = some same := by
  unfold binary
  cases h.equal room a b <;> simp

/-- Its negation gives the opposite answer. -/
theorem binary_notEqual_iff (h : Heap) (room : Nat) (a b : Value) (same : Bool) :
    h.binary room .notEqual a b = .ok (.value (.bool !same)) ↔ h.equal room a b = some same := by
  unfold binary
  cases h.equal room a b <;> simp

theorem binary_equal_iff_bisimilar {room : Nat} (enough : h.lists.size ^ 2 < room) (a b : Value) :
    h.binary room .equal a b = .ok (.value (.bool true)) ↔ h.Bisimilar a b := by
  obtain ⟨same, found⟩ := exists_equal enough a b
  rw [binary_equal_iff, ← equal_iff found, found, Option.some_inj]

end Heap

/-- **Values are equal exactly if they are bisimilar.** In every heap the comparison of two
values ends if there is room for each pair of lists, and whatever the room, an answer
that it gives is the right one. So the operator `==` is an equivalence of values, also of
NaNs as objects, and `!=` is its negation. -/
theorem equal_decides (h : Heap) :
    (∀ room a b, h.lists.size ^ 2 < room → ∃ same, h.equal room a b = some same) ∧
    (∀ room a b same, h.equal room a b = some same → (same = true ↔ h.Bisimilar a b)) ∧
    (∀ room, h.lists.size ^ 2 < room →
      Equivalence fun a b => h.binary room .equal a b = .ok (.value (.bool true))) ∧
    (∀ room a b, (∀ same, h.binary room .notEqual a b = .ok (.value (.bool !same)) ↔
        h.binary room .equal a b = .ok (.value (.bool same))) ∧
      ∀ stop, h.binary room .notEqual a b = .error stop ↔
        h.binary room .equal a b = .error stop) := by
  refine ⟨?_, ?_, ?_, ?_⟩
  · exact fun room a b enough => Heap.exists_equal enough a b
  · exact fun room a b same found => Heap.equal_iff found
  · intro room enough
    simp only [Heap.binary_equal_iff_bisimilar enough]
    exact ⟨Heap.Bisimilar.refl, Heap.Bisimilar.symm, Heap.Bisimilar.trans⟩
  · intro room a b
    refine ⟨fun same => ?_, fun stop => ?_⟩
    · rw [Heap.binary_notEqual_iff, Heap.binary_equal_iff]
    · unfold Heap.binary
      cases h.equal room a b <;> simp

/-- Two lists that hold each other, and the same NaN. -/
def crossed : Heap where
  lists := #[#[.list ⟨1⟩, .number (0 / 0) 7], #[.list ⟨0⟩, .number (0 / 0) 7]]
  scopes := #[]
  functions := #[]
  nextIdentity := 8

/-- The two lists are equal, though the NaN is no equal number. -/
theorem equal_decides_crossed :
    ((0 / 0 : Float) == 0 / 0) = false ∧ crossed.lists.size ^ 2 < 5 ∧
    crossed.equal 5 (.list ⟨0⟩) (.list ⟨1⟩) = some true ∧
    crossed.Bisimilar (.list ⟨0⟩) (.list ⟨1⟩) := by
  have answer : crossed.equal 5 (.list ⟨0⟩) (.list ⟨1⟩) = some true := by decide +kernel
  refine ⟨by decide +kernel, by decide, answer, ?_⟩
  exact ((equal_decides crossed).2.1 5 _ _ true answer).mp rfl

end TernLang
