import Mathlib.Data.Fintype.Card
import Mathlib.Data.Fintype.EquivFin
import Mathlib.Logic.Relation
import TernLang.Proofs.Equality
import TernLang.Proofs.Number.Numerals
import TernLang.Proofs.Printing

/-! # Equal values print alike

**If no list in a value contains itself, then no list in an equal value does, and both
have the same text** (`equal_values_print_alike`), whatever lists they share inside.

Equality looks at pairs of lists and printing at the lists around a value. Both come down
to the unfolding: equal values are bisimilar, so they unfold into the same tree. There
are finitely many lists, so without cycles the tree is finite (`acc_of_acyclic`), and a
finite tree is no unfolding of a cycle.
-/

namespace TernLang

namespace Heap

variable {h : Heap}

/-- The second value is an element of the first one, a list. -/
def Contains (h : Heap) (x y : Value) : Prop :=
  ∃ p, x = .list p ∧ y ∈ h.items p

/-- No list that is reached from the value contains itself, directly or indirectly. -/
def Acyclic (h : Heap) (value : Value) : Prop :=
  ∀ p, Relation.ReflTransGen h.Contains value (.list p) →
    ¬ Relation.TransGen h.Contains (.list p) (.list p)

/-! ## Finite unfoldings -/

theorem not_contains {x y : Value} (other : x.type ≠ .list) : ¬ h.Contains x y := by
  rintro ⟨p, rfl, -⟩
  exact other rfl

/-- The elements of an acyclic list are acyclic. -/
theorem Acyclic.element {x y : Value} (acyclic : h.Acyclic x) (contains : h.Contains x y) :
    h.Acyclic y :=
  fun p reached => acyclic p (reached.head contains)

/-- **Without cycles, unfolding a value comes to an end.** -/
theorem acc_of_acyclic {value : Value} (acyclic : h.Acyclic value) :
    Acc (flip h.Contains) value := by
  have leaf {x : Value} (empty : ∀ y, ¬ h.Contains x y) : Acc (flip h.Contains) x :=
    .intro _ fun y contains => absurd contains (empty y)
  have unused {ref : ListRef} (outside : ¬ ref.id < h.lists.size) :
      Acc (flip h.Contains) (.list ref) := by
    refine leaf fun y => ?_
    rintro ⟨p, same, mem⟩
    cases same
    rw [items, Array.getElem?_eq_none (Nat.le_of_not_lt outside)] at mem
    exact absurd mem (Array.not_mem_empty y)
  -- the lists that are reached, ordered by containment
  let Reached := { i : Fin h.lists.size // Relation.ReflTransGen h.Contains value (.list ⟨i⟩) }
  let below (j i : Reached) : Prop := Relation.TransGen h.Contains (.list ⟨i.1⟩) (.list ⟨j.1⟩)
  have : Finite Reached := Subtype.finite
  have : IsTrans Reached below := ⟨fun _ _ _ first second => second.trans first⟩
  have : Std.Irrefl below := ⟨fun i cycle => acyclic _ i.2 cycle⟩
  have wellFounded : WellFounded below := Finite.wellFounded_of_trans_of_irrefl below
  have lists (i : Reached) : Acc (flip h.Contains) (.list ⟨i.1⟩) := by
    induction i using wellFounded.induction with
    | _ i ih =>
        refine .intro _ fun y contains => ?_
        cases y with
        | list ref =>
            by_cases inside : ref.id < h.lists.size
            · exact ih ⟨⟨ref.id, inside⟩, i.2.tail contains⟩ (.single contains)
            · exact unused inside
        | null | bool | number | string | function | native =>
            exact leaf fun _ => not_contains nofun
  cases value with
  | list ref =>
      by_cases inside : ref.id < h.lists.size
      · exact lists ⟨⟨ref.id, inside⟩, .refl⟩
      · exact unused inside
  | null | bool | number | string | function | native =>
      exact leaf fun _ => not_contains nofun

/-- A value whose unfolding comes to an end has no cycles. -/
theorem acyclic_of_acc {value : Value} (ends : Acc (flip h.Contains) value) :
    h.Acyclic value := by
  induction ends with
  | intro x below ih =>
      intro p reached cycle
      obtain ⟨y, contains, reached'⟩ := Relation.TransGen.head'_iff.mp (.trans_right reached cycle)
      exact ih y contains p reached' cycle

theorem exists_of_mem_right {R : Value → Value → Prop} {xs ys : List Value}
    (related : List.Forall₂ R xs ys) {y : Value} (mem : y ∈ ys) : ∃ x ∈ xs, R x y := by
  induction related with
  | nil => exact absurd mem List.not_mem_nil
  | cons first rest ih =>
      rcases List.mem_cons.mp mem with rfl | mem
      · exact ⟨_, List.mem_cons_self, first⟩
      · obtain ⟨x, mem', related'⟩ := ih mem
        exact ⟨x, List.mem_cons_of_mem _ mem', related'⟩

/-- The unfoldings of bisimilar values come to an end together. -/
theorem Bisimilar.acc {a b : Value} (related : h.Bisimilar a b)
    (ends : Acc (flip h.Contains) a) : Acc (flip h.Contains) b := by
  induction ends generalizing b with
  | intro a below ih =>
      cases h.bisimulation_bisimilar a b related with
      | same => exact .intro _ below
      | scalars equal =>
          refine .intro _ fun y contains => absurd contains (not_contains ?_)
          cases equal <;> exact nofun
      | @lists p q elements =>
          refine .intro _ ?_
          rintro y ⟨q', same, mem⟩
          cases same
          obtain ⟨x, mem', related'⟩ := exists_of_mem_right elements (Array.mem_toList_iff.mpr mem)
          exact ih x ⟨p, rfl, Array.mem_toList_iff.mp mem'⟩ related'

/-! ## Texts of bisimilar values -/

/-- Bisimilar values are two lists or have the same text on their own. -/
theorem Bisimilar.lists_or_scalars {a b : Value} (related : h.Bisimilar a b) :
    (∃ p q, a = .list p ∧ b = .list q ∧
      List.Forall₂ h.Bisimilar (h.items p).toList (h.items q).toList) ∨
    (a.type ≠ .list ∧ b.type ≠ .list ∧ h.renderScalar a = h.renderScalar b) := by
  cases h.bisimulation_bisimilar a b related with
  | same =>
      cases a with
      | list p => exact .inl ⟨p, p, rfl, rfl, List.forall₂_same.mpr fun x _ => .refl x⟩
      | null | bool | number | string | function | native => exact .inr ⟨nofun, nofun, rfl⟩
  | scalars equal =>
      refine .inr ?_
      cases equal with
      | bool b => exact ⟨nofun, nofun, rfl⟩
      | number equal => exact ⟨nofun, nofun, display_congr equal⟩
      | string s => exact ⟨nofun, nofun, rfl⟩
  | lists elements => exact .inl ⟨_, _, rfl, rfl, elements⟩

/-- What is no list has the same text wherever it stands. -/
theorem textWithin_scalar {value : Value} (other : value.type ≠ .list) (room : Nat)
    (active : List ListRef) :
    h.textWithin (room + 1) active value = some (h.renderScalar value) := by
  cases value with
  | list => exact absurd rfl other
  | null | bool | number | string | function | native => rfl

/-- Two lists of related values have the same texts if related values do. -/
theorem mapM_of_forall₂ {R : Value → Value → Prop} {f g : Value → Option String}
    {xs ys : List Value} (related : List.Forall₂ R xs ys)
    (same : ∀ x ∈ xs, ∀ y ∈ ys, R x y → f x = g y) : xs.mapM f = ys.mapM g := by
  induction related with
  | nil => rfl
  | cons first rest ih =>
      rw [List.mapM_cons, List.mapM_cons, same _ List.mem_cons_self _ List.mem_cons_self first,
        ih fun x mem y mem' => same x (List.mem_cons_of_mem _ mem) y (List.mem_cons_of_mem _ mem')]

/-- The value is not inside the lists `active`: none of them is reached from it. -/
def Apart (h : Heap) (active : List ListRef) (value : Value) : Prop :=
  ∀ p ∈ active, ¬ Relation.ReflTransGen h.Contains value (.list p)

/-- An element of an acyclic list is apart from the list itself. -/
theorem Apart.element {active : List ListRef} {p : ListRef} {item : Value}
    (apart : h.Apart active (.list p)) (acyclic : h.Acyclic (.list p))
    (contains : h.Contains (.list p) item) : h.Apart (p :: active) item := by
  intro q mem reached
  rcases List.mem_cons.mp mem with rfl | mem
  · exact acyclic q .refl (.head' contains reached)
  · exact apart q mem (reached.head contains)

/-- **Bisimilar values without cycles have the same text.** -/
theorem textWithin_of_bisimilar {room : Nat} {active active' : List ListRef} {a b : Value}
    (related : h.Bisimilar a b) (acyclic : h.Acyclic a) (acyclic' : h.Acyclic b)
    (apart : h.Apart active a) (apart' : h.Apart active' b) :
    h.textWithin room active a = h.textWithin room active' b := by
  induction room generalizing active active' a b with
  | zero => rfl
  | succ room ih =>
      rcases related.lists_or_scalars with ⟨p, q, rfl, rfl, elements⟩ | ⟨other, other', same⟩
      · rw [textWithin_of_notMem fun mem => apart p mem .refl,
          textWithin_of_notMem fun mem => apart' q mem .refl]
        refine congrArg (Option.map bracketed) (mapM_of_forall₂ elements ?_)
        intro x mem y mem' related
        have contains : h.Contains (.list p) x := ⟨p, rfl, Array.mem_toList_iff.mp mem⟩
        have contains' : h.Contains (.list q) y := ⟨q, rfl, Array.mem_toList_iff.mp mem'⟩
        exact ih related (acyclic.element contains) (acyclic'.element contains')
          (apart.element acyclic contains) (apart'.element acyclic' contains')
      · rw [textWithin_scalar other, textWithin_scalar other', same]

end Heap

/-- **Equal values print alike**: if the lists in a value do not contain themselves, then
those in an equal value do not either, and the two texts are the same. -/
theorem equal_values_print_alike {h : Heap} {room : Nat} {a b : Value} (acyclic : h.Acyclic a)
    (equal : h.equal room a b = some true) :
    h.Acyclic b ∧ (∀ room', h.render room' a = h.render room' b) ∧
      ∀ room', h.lists.size < room' →
        ∃ text, h.render room' a = some text ∧ h.render room' b = some text := by
  have related := (Heap.equal_iff equal).mp rfl
  have acyclic' := Heap.acyclic_of_acc (related.acc (Heap.acc_of_acyclic acyclic))
  have apart (value : Value) : h.Apart [] value := fun _ mem => absurd mem List.not_mem_nil
  have same (room' : Nat) : h.render room' a = h.render room' b := by
    rw [Heap.render_eq, Heap.render_eq]
    exact Heap.textWithin_of_bisimilar related acyclic acyclic' (apart a) (apart b)
  refine ⟨acyclic', same, fun room' enough => ?_⟩
  obtain ⟨text, rendered⟩ := Heap.exists_render a enough
  exact ⟨text, rendered, (same room').symm.trans rendered⟩

/-- Where each list holds newer lists only, no list contains itself. -/
theorem Heap.acyclic_of_newer {h : Heap} (newer : ∀ p q, .list q ∈ h.items p → p.id < q.id)
    (value : Value) : h.Acyclic value := by
  have later {x y : Value} (path : Relation.TransGen h.Contains x y) :
      ∀ p q, x = .list p → y = .list q → p.id < q.id := by
    induction path with
    | single contains =>
        rintro p q rfl rfl
        obtain ⟨_, ⟨⟩, mem⟩ := contains
        exact newer p q mem
    | tail _ contains ih =>
        rintro p q rfl rfl
        obtain ⟨r, rfl, mem⟩ := contains
        exact (ih p r rfl rfl).trans (newer r q mem)
  exact fun p _ cycle => Nat.lt_irrefl _ (later cycle p p rfl rfl)

/-- Two lists of two lists of a zero: the first holds one list twice, the second holds
that list and another one, with a negative zero. -/
def sharedZeros : Heap where
  lists := #[#[.list ⟨2⟩, .list ⟨2⟩], #[.list ⟨3⟩, .list ⟨2⟩], #[.ofFloat 0], #[.ofFloat (-0)]]
  scopes := #[]
  functions := #[]
  nextIdentity := 1

/-- The two lists are equal, and both are printed. -/
theorem equal_values_print_alike_sharedZeros :
    sharedZeros.equal 3 (.list ⟨0⟩) (.list ⟨1⟩) = some true ∧
      ∃ text, sharedZeros.render 5 (.list ⟨0⟩) = some text ∧
        sharedZeros.render 5 (.list ⟨1⟩) = some text := by
  have equal : sharedZeros.equal 3 (.list ⟨0⟩) (.list ⟨1⟩) = some true := by decide +kernel
  have newer : ∀ p q, .list q ∈ sharedZeros.items p → p.id < q.id := by
    rintro ⟨i⟩ ⟨j⟩ mem
    match i with
    | 0 =>
        have element : j = 2 := by simpa [sharedZeros, Heap.items] using mem
        exact element ▸ Nat.zero_lt_succ 1
    | 1 =>
        have element : j = 3 ∨ j = 2 := by simpa [sharedZeros, Heap.items] using mem
        show 1 < j
        omega
    | 2 | 3 => simp [sharedZeros, Heap.items, Value.ofFloat] at mem
    | i + 4 => simp [sharedZeros, Heap.items] at mem
  have alike := equal_values_print_alike (Heap.acyclic_of_newer newer _) equal
  exact ⟨equal, alike.2.2 5 (by decide)⟩

end TernLang
