import TernLang.Lists
import TernLang.Proofs.Number.Whole

/-! # Positions and bounds

What stands for a position in a list or for a bound of a slice is a number whose value is
an integer (`Value.IsInteger`): `1`, `-0` and `1e300` are, `0.5`, infinities, NaNs and
values of another kind are not. **Exactly these are accepted** (`position_eq_ok_iff`,
`sliceBound_eq_ok_iff`). A number that is no position of a list is a fault of another kind
than a value that is no number at all.
-/

namespace TernLang

/-- The value is a number, and the number is an integer. -/
def Value.IsInteger (value : Value) (z : ℤ) : Prop :=
  ∃ x identity, value = .number x identity ∧ Number.toRat? x = some (z : ℚ)

/-- The kind of the fault with which a value is refused as a position. -/
def Value.positionFault (value : Value) : FaultKind :=
  if value.type = .number then .indexOutOfRange else .typeMismatch

section Integers

variable {value : Value} {z z' : ℤ} {use : PositionUse} {bound : SliceBound} {limit length : Nat}
  {fault : Fault}

/-- A value is one integer at most. -/
theorem Value.IsInteger.unique (first : value.IsInteger z) (second : value.IsInteger z') :
    z = z' := by
  obtain ⟨x, identity, rfl, exact⟩ := first
  obtain ⟨x', identity', same, exact'⟩ := second
  cases same
  rw [exact, Option.some_inj] at exact'
  exact_mod_cast exact'

theorem isInteger_number_iff {x : Float} {identity : Nat} :
    (Value.number x identity).IsInteger z ↔ Number.toInt? x = some z := by
  rw [Number.toInt?_eq_some_iff]
  constructor
  · rintro ⟨x', identity', same, exact⟩
    cases same
    exact exact
  · exact fun exact => ⟨x, identity, rfl, exact⟩

theorem isInteger_ofNat {n : Nat} (short : n < 2 ^ 53) :
    (Value.ofFloat (Number.ofNat n)).IsInteger n :=
  ⟨_, 0, rfl, Number.toRat?_ofNat short⟩

/-! ## Positions -/

/-- **A position is an integer.** -/
theorem position_eq_ok_iff : position use value = .ok z ↔ value.IsInteger z := by
  cases value with
  | number x identity =>
      rw [isInteger_number_iff, position]
      cases Number.toInt? x <;> simp
  | _ => exact iff_of_false nofun (by rintro ⟨x, identity, ⟨⟩, -⟩)

/-- A number refused as a position is out of range, any other value of the wrong type. -/
theorem position_eq_error (refused : position use value = .error fault) :
    fault.kind = value.positionFault := by
  cases value with
  | number x identity =>
      rw [position] at refused
      cases found : Number.toInt? x with
      | none =>
          rw [found] at refused
          cases refused
          rfl
      | some i =>
          rw [found] at refused
          cases refused
  | _ =>
      cases refused
      rfl

/-- **A position below a limit** is an integer that is no less than zero and below it. -/
theorem positionBelow_eq_ok_iff {i : Nat} :
    positionBelow use limit length value = .ok i ↔ value.IsInteger i ∧ i < limit := by
  constructor
  · intro accepted
    obtain ⟨given, below⟩ := position_of_positionBelow accepted
    exact ⟨position_eq_ok_iff.mp given, below⟩
  · rintro ⟨integer, below⟩
    unfold positionBelow
    rw [position_eq_ok_iff.mpr integer]
    show (if 0 ≤ (i : ℤ) ∧ (i : ℤ) < limit then Except.ok (i : ℤ).toNat else _) = _
    rw [if_pos (by omega), Int.toNat_natCast]

/-- A number refused below a limit is out of range, any other value of the wrong type. -/
theorem positionBelow_eq_error (refused : positionBelow use limit length value = .error fault) :
    fault.kind = value.positionFault := by
  unfold positionBelow at refused
  cases found : position use value with
  | error fault =>
      rw [found] at refused
      cases refused
      exact position_eq_error found
  | ok z =>
      obtain ⟨x, identity, rfl, -⟩ := position_eq_ok_iff.mp found
      rw [found] at refused
      change (if 0 ≤ z ∧ z < limit then Except.ok z.toNat else _) = _ at refused
      split at refused
      · cases refused
      · cases refused
        rfl

/-- What is no position below the limit is refused. -/
theorem exists_positionBelow_error (use : PositionUse) (length : Nat)
    (outside : ¬ ∃ i : Nat, value.IsInteger i ∧ i < limit) :
    ∃ fault, positionBelow use limit length value = .error fault ∧
      fault.kind = value.positionFault := by
  cases found : positionBelow use limit length value with
  | error fault => exact ⟨fault, rfl, positionBelow_eq_error found⟩
  | ok i => exact absurd ⟨i, positionBelow_eq_ok_iff.mp found⟩ outside

/-! ## Bounds of slices -/

/-- **A bound is an integer.** -/
theorem sliceBound_eq_ok_iff : sliceBound bound value = .ok z ↔ value.IsInteger z := by
  cases value with
  | number x identity =>
      rw [isInteger_number_iff, sliceBound]
      cases Number.toInt? x <;> simp
  | _ => exact iff_of_false nofun (by rintro ⟨x, identity, ⟨⟩, -⟩)

/-- A slice bound is refused for its type only. -/
theorem sliceBound_eq_error (refused : sliceBound bound value = .error fault) :
    fault.kind = .typeMismatch := by
  cases value with
  | number x identity =>
      rw [sliceBound] at refused
      cases found : Number.toInt? x with
      | none =>
          rw [found] at refused
          cases refused
          rfl
      | some i =>
          rw [found] at refused
          cases refused
  | _ =>
      cases refused
      rfl

/-- A bound that is missing stands for no integer. -/
theorem mapM_sliceBound_eq_ok_iff {given : Option Value} {whole : Option ℤ} :
    given.mapM (sliceBound bound) = .ok whole ↔ Option.Rel Value.IsInteger given whole := by
  cases given with
  | none =>
      cases whole with
      | none => exact iff_of_true rfl .none
      | some z => exact iff_of_false nofun nofun
  | some value =>
      show (some <$> sliceBound bound value : Except Fault (Option ℤ)) = _ ↔ _
      cases found : sliceBound bound value with
      | error fault =>
          refine iff_of_false nofun ?_
          rintro (⟨integer⟩ | _)
          rw [sliceBound_eq_ok_iff.mpr integer] at found
          cases found
      | ok z =>
          have integer := sliceBound_eq_ok_iff.mp found
          constructor
          · rintro ⟨⟩
            exact .some integer
          · rintro (⟨integer'⟩ | _)
            rw [integer.unique integer']
            rfl

theorem mapM_sliceBound_eq_error {given : Option Value}
    (refused : given.mapM (sliceBound bound) = .error fault) : fault.kind = .typeMismatch := by
  cases given with
  | none => cases refused
  | some value =>
      change (some <$> sliceBound bound value : Except Fault (Option ℤ)) = _ at refused
      cases found : sliceBound bound value with
      | error fault =>
          rw [found] at refused
          cases refused
          exact sliceBound_eq_error found
      | ok z =>
          rw [found] at refused
          cases refused

end Integers

end TernLang
