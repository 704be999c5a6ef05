import Mathlib.Data.List.Forall2
import TernLang.Proofs.Number.Equality

/-! # Bisimilar values

Two values are `Bisimilar` if they cannot be told apart by looking at constants and, to
any depth, at the elements of lists: some relation of values holds between them that is
a `Bisimulation`. This is an equivalence in every heap, however lists contain themselves
and each other.
-/

namespace TernLang

/-- Equal constants of one kind. -/
inductive ScalarsEqual : Value → Value → Prop
  | bool (b : Bool) : ScalarsEqual (.bool b) (.bool b)
  | number {x y : Float} {i j : Nat} : (x == y) = true →
      ScalarsEqual (.number x i) (.number y j)
  | string (s : String) : ScalarsEqual (.string s) (.string s)

namespace ScalarsEqual

variable {a b c : Value}

theorem symm (equal : ScalarsEqual a b) : ScalarsEqual b a := by
  cases equal with
  | bool b => exact .bool b
  | number equal => exact .number (Number.beq_symm equal)
  | string s => exact .string s

theorem trans (first : ScalarsEqual a b) (second : ScalarsEqual b c) : ScalarsEqual a c := by
  cases first with
  | bool b => exact second
  | string s => exact second
  | number equal =>
      cases second with
      | number equal' => exact .number (Number.beq_trans equal equal')

end ScalarsEqual

namespace Heap

/-- Two values are the same object, or equal constants, or lists of the same length with
related elements. -/
inductive Matches (h : Heap) (R : Value → Value → Prop) : Value → Value → Prop
  | same (a : Value) : Matches h R a a
  | scalars {a b : Value} : ScalarsEqual a b → Matches h R a b
  | lists {p q : ListRef} : List.Forall₂ R (h.items p).toList (h.items q).toList →
      Matches h R (.list p) (.list q)

/-- Related values match. -/
def Bisimulation (h : Heap) (R : Value → Value → Prop) : Prop :=
  ∀ a b, R a b → h.Matches R a b

/-- Some bisimulation relates the two values. -/
def Bisimilar (h : Heap) (a b : Value) : Prop :=
  ∃ R, h.Bisimulation R ∧ R a b

variable {h : Heap}

/-! ## Bisimilarity -/

theorem Matches.mono {R S : Value → Value → Prop} {a b : Value} (found : h.Matches R a b)
    (weaker : ∀ a b, R a b → S a b) : h.Matches S a b := by
  cases found with
  | same a => exact .same a
  | scalars equal => exact .scalars equal
  | lists related => exact .lists (related.imp weaker)

theorem bisimulation_bisimilar (h : Heap) : h.Bisimulation h.Bisimilar := by
  rintro a b ⟨R, closed, related⟩
  exact (closed a b related).mono fun x y inner => ⟨R, closed, inner⟩

theorem Bisimilar.refl (a : Value) : h.Bisimilar a a := by
  refine ⟨Eq, ?_, rfl⟩
  rintro a b rfl
  exact .same a

theorem Bisimilar.symm {a b : Value} (related : h.Bisimilar a b) : h.Bisimilar b a := by
  refine ⟨fun x y => h.Bisimilar y x, fun x y inner => ?_, related⟩
  cases h.bisimulation_bisimilar y x inner with
  | same => exact .same x
  | scalars equal => exact .scalars equal.symm
  | lists elements => exact .lists elements.flip

theorem forall₂_comp {R S T : Value → Value → Prop} (comp : ∀ a b c, R a b → S b c → T a c)
    {xs ys zs : List Value} (first : List.Forall₂ R xs ys) (second : List.Forall₂ S ys zs) :
    List.Forall₂ T xs zs := by
  induction first generalizing zs with
  | nil =>
      cases second
      exact .nil
  | cons head _ ih =>
      cases second with
      | cons head' tail' => exact .cons (comp _ _ _ head head') (ih tail')

theorem Bisimilar.trans {a b c : Value} (first : h.Bisimilar a b) (second : h.Bisimilar b c) :
    h.Bisimilar a c := by
  refine ⟨fun x z => ∃ y, h.Bisimilar x y ∧ h.Bisimilar y z, ?_, b, first, second⟩
  rintro x z ⟨y, left, right⟩
  cases h.bisimulation_bisimilar x y left with
  | same =>
      exact (h.bisimulation_bisimilar x z right).mono fun u w inner => ⟨u, .refl u, inner⟩
  | scalars equal =>
      cases h.bisimulation_bisimilar y z right with
      | same => exact .scalars equal
      | scalars equal' => exact .scalars (equal.trans equal')
      | lists => cases equal
  | lists elements =>
      generalize list : Value.list _ = y at right
      cases h.bisimulation_bisimilar y z right with
      | same =>
          subst list
          exact .lists (elements.imp fun u w inner => ⟨w, inner, .refl w⟩)
      | scalars equal =>
          subst list
          cases equal
      | lists elements' =>
          cases list
          exact .lists (forall₂_comp (fun _ v _ left right => ⟨v, left, right⟩) elements elements')

end Heap

end TernLang
