import Mathlib.Algebra.Order.Floor.Div
import Mathlib.Order.Bounds.Basic
import Mathlib.Tactic.Common

namespace TerseDsa
namespace Foundation

/-!
# Rounding up

The least multiple of a step that is not below a value.  Of the multiples it is
the only one less than a step above it.
-/

variable {val step multiple : Nat}

/-- The least multiple of the step that is not below the value. -/
def roundUp (val step : Nat) : Nat := step * (val ⌈/⌉ step)

theorem dvd_roundUp (val step : Nat) : step ∣ roundUp val step := Nat.dvd_mul_right _ _

theorem le_roundUp (positive : 0 < step) : val ≤ roundUp val step :=
  (ceilDiv_le_iff_le_mul positive).mp (Nat.le_refl _)

theorem roundUp_le (positive : 0 < step) (dvd : step ∣ multiple) (le : val ≤ multiple) : roundUp val step ≤ multiple := by
  rcases dvd with ⟨count, rfl⟩
  exact Nat.mul_le_mul_left _ ((ceilDiv_le_iff_le_mul positive).mpr le)

theorem isLeast_roundUp (positive : 0 < step) : IsLeast {multiple | val ≤ multiple ∧ step ∣ multiple} (roundUp val step) :=
  ⟨⟨le_roundUp positive, dvd_roundUp val step⟩, fun _ among => roundUp_le positive among.2 among.1⟩

/-- There is one multiple of the step in the step from a value on. -/
theorem eq_roundUp (dvd : step ∣ multiple) (le : val ≤ multiple) (near : multiple < val + step) :
    multiple = roundUp val step := by
  have positive : 0 < step := by omega
  have low : val ≤ roundUp val step := le_roundUp positive
  have least := roundUp_le positive dvd le
  rcases dvd with ⟨count, rfl⟩
  have between : step * count < step * ((val ⌈/⌉ step) + 1) := by
    rw [Nat.mul_succ]
    exact Nat.lt_of_lt_of_le near (Nat.add_le_add_right low step)
  have few : count ≤ val ⌈/⌉ step := Nat.lt_succ_iff.mp (Nat.lt_of_mul_lt_mul_left between)
  exact Nat.le_antisymm (Nat.mul_le_mul_left _ few) least

end Foundation
end TerseDsa
