import TernLang.Value.Equality

/-! # Equality of doubles

Two doubles are equal by `==` exactly if neither is a NaN and they are the same up to
the sign of a zero (`beq_iff`). So `==` is symmetric and transitive, and reflexive on
all doubles but NaNs. All NaNs are the same double (`eq_of_isNaN`).
-/

namespace TernLang.Number

open Float.Model

/-- The parts of a double, where zero has no sign. -/
def unsigned : UnpackedFloat → UnpackedFloat
  | .zero _ => .zero .positive
  | parts => parts

theorem then_compare_eq_iff (e e' : Int) (m m' : Nat) :
    (compare e e').then (compare m m') = .eq ↔ e = e' ∧ m = m' := by
  rw [Ordering.then_eq_eq, Int.compare_eq_eq, Nat.compare_eq_eq]

theorem unsigned_finite_eq_iff {s s' : UnpackedFloat.Sign} {m m' : Nat} {e e' : Int}
    {some : 0 < m} {some' : 0 < m'} :
    unsigned (.finite s m e some) = unsigned (.finite s' m' e' some') ↔
      s = s' ∧ e = e' ∧ m = m' := by
  constructor
  · intro same
    cases same
    exact ⟨rfl, rfl, rfl⟩
  · rintro ⟨rfl, rfl, rfl⟩
    rfl

/-- Two floats compare equal exactly when they are numbers of one value, zeros of both signs
being one. -/
theorem compare_eq_iff (a b : UnpackedFloat) :
    a.compare b = some .eq ↔ a.isNaN = false ∧ unsigned a = unsigned b := by
  cases a with
  | notANumber => exact iff_of_false (by rintro ⟨⟩) (by rintro ⟨⟨⟩, -⟩)
  | zero s =>
      cases b with
      | zero s' => exact iff_of_true rfl ⟨rfl, rfl⟩
      | notANumber => exact iff_of_false (by rintro ⟨⟩) (by rintro ⟨-, ⟨⟩⟩)
      | infinity s' | finite s' =>
          cases s' <;> exact iff_of_false (by rintro ⟨⟩) (by rintro ⟨-, ⟨⟩⟩)
  | infinity s =>
      cases b with
      | infinity s' =>
          cases s <;> cases s'
          · exact iff_of_true rfl ⟨rfl, rfl⟩
          · exact iff_of_false (by rintro ⟨⟩) (by rintro ⟨-, ⟨⟩⟩)
          · exact iff_of_false (by rintro ⟨⟩) (by rintro ⟨-, ⟨⟩⟩)
          · exact iff_of_true rfl ⟨rfl, rfl⟩
      | notANumber | zero | finite =>
          cases s <;> exact iff_of_false (by rintro ⟨⟩) (by rintro ⟨-, ⟨⟩⟩)
  | finite s m e some =>
      cases b with
      | infinity s' =>
          cases s <;> cases s' <;> exact iff_of_false (by rintro ⟨⟩) (by rintro ⟨-, ⟨⟩⟩)
      | notANumber | zero =>
          cases s <;> exact iff_of_false (by rintro ⟨⟩) (by rintro ⟨-, ⟨⟩⟩)
      | finite s' m' e' some' =>
          rw [unsigned_finite_eq_iff, ← then_compare_eq_iff]
          cases s <;> cases s'
          · show Option.some (Ordering.swap _) = Option.some Ordering.eq ↔ _
            rw [Option.some_inj, Ordering.swap_eq_eq]
            exact ⟨fun same => ⟨rfl, rfl, same⟩, fun same => same.2.2⟩
          · exact iff_of_false (by rintro ⟨⟩) (by rintro ⟨-, ⟨⟩, -⟩)
          · exact iff_of_false (by rintro ⟨⟩) (by rintro ⟨-, ⟨⟩, -⟩)
          · show Option.some _ = Option.some Ordering.eq ↔ _
            rw [Option.some_inj]
            exact ⟨fun same => ⟨rfl, rfl, same⟩, fun same => same.2.2⟩

/-- **Equal doubles are no NaNs and the same up to the sign of a zero.** -/
theorem beq_iff (x y : Float) :
    (x == y) = true ↔
      x.isNaN = false ∧ unsigned x.toModel.unpack = unsigned y.toModel.unpack := by
  rw [← show x.toModel.unpack.isNaN = x.isNaN from rfl, ← compare_eq_iff]
  show (x.toModel.unpack.compare y.toModel.unpack == some .eq) = true ↔ _
  rw [beq_iff_eq]

theorem isNaN_unsigned (parts : UnpackedFloat) : (unsigned parts).isNaN = parts.isNaN := by
  cases parts <;> rfl

theorem beq_self {x : Float} (number : x.isNaN = false) : (x == x) = true :=
  (beq_iff x x).mpr ⟨number, rfl⟩

theorem beq_symm {x y : Float} (same : (x == y) = true) : (y == x) = true := by
  obtain ⟨number, parts⟩ := (beq_iff x y).mp same
  refine (beq_iff y x).mpr ⟨?_, parts.symm⟩
  rw [← number]
  show y.toModel.unpack.isNaN = x.toModel.unpack.isNaN
  rw [← isNaN_unsigned, ← parts, isNaN_unsigned]

theorem beq_trans {x y z : Float} (first : (x == y) = true) (second : (y == z) = true) :
    (x == z) = true := by
  obtain ⟨number, parts⟩ := (beq_iff x y).mp first
  obtain ⟨-, parts'⟩ := (beq_iff y z).mp second
  exact (beq_iff x z).mpr ⟨number, parts.trans parts'⟩

/-- The bits of a NaN are those of the canonical one. -/
theorem toBits_of_isNaN {model : Float.Model} (nan : model.isNaN = true) :
    model.toBits.toBitVec = UnpackedFloat.packedNaN Format.binary64 := by
  unfold Float.Model.isNaN Float.Model.unpack UnpackedFloat.unpack at nan
  dsimp only at nan
  by_cases largest : @UnpackedFloat.unpackExponent .binary64 model.toBits.toBitVec = -1#11
  · rw [if_pos largest] at nan
    by_cases infinite : @UnpackedFloat.unpackMantissa .binary64 model.toBits.toBitVec = 0#52
    · rw [if_pos infinite] at nan
      cases nan
    · exact model.valid.eq_packedNaN largest infinite
  · rw [if_neg largest] at nan
    by_cases smallest : @UnpackedFloat.unpackExponent .binary64 model.toBits.toBitVec = 0#11
    · rw [if_pos smallest] at nan
      by_cases zero : @UnpackedFloat.unpackMantissa .binary64 model.toBits.toBitVec = 0#52
      · rw [dif_pos zero] at nan
        cases nan
      · rw [dif_neg zero] at nan
        cases nan
    · rw [if_neg smallest] at nan
      cases nan

/-- **There is one NaN.** -/
theorem eq_of_isNaN {x y : Float} (first : x.isNaN = true) (second : y.isNaN = true) : x = y := by
  have bits : x.toModel.toBits.toBitVec = y.toModel.toBits.toBitVec :=
    (toBits_of_isNaN first).trans (toBits_of_isNaN second).symm
  cases x with
  | ofModel model =>
      cases y with
      | ofModel model' =>
          cases model
          cases model'
          cases UInt64.toBitVec_inj.mp bits
          rfl

end TernLang.Number

namespace TernLang

/-- Two numbers are equal as doubles, or they are the same NaN. -/
theorem equalNumbers_iff (x : Float) (i : Nat) (y : Float) (j : Nat) :
    equalNumbers x i y j = true ↔
      (x == y) = true ∨ Value.number x i = Value.number y j := by
  unfold equalNumbers
  rw [Bool.or_eq_true, Bool.and_eq_true, Bool.and_eq_true, beq_iff_eq (a := i)]
  constructor
  · rintro (equal | ⟨⟨first, second⟩, rfl⟩)
    · exact .inl equal
    · exact .inr (by rw [Number.eq_of_isNaN first second])
  · rintro (equal | same)
    · exact .inl equal
    · cases same
      cases nan : x.isNaN with
      | true => exact .inr ⟨⟨rfl, rfl⟩, rfl⟩
      | false => exact .inl (Number.beq_self nan)

end TernLang
