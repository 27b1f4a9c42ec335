import Mathlib.Order.Interval.Set.Nat
import Mathlib.Tactic.Common

namespace TerseDsa
namespace Foundation
namespace Rejection

/-!
# Multiply and reject

A number below `total` becomes one below `range` when it is multiplied by
`range` and divided by `total`.  The values come up equally often once the
numbers are rejected whose remainder is below `total % range`.
-/

variable {total range number value : Nat}

/-- The number is not rejected. -/
def Accepts (total range number : Nat) : Prop := total % range ≤ number * range % total

instance : Decidable (Accepts total range number) := inferInstanceAs (Decidable (_ ≤ _))

/-- What the number becomes. -/
def scaled (total range number : Nat) : Nat := number * range / total

theorem scaled_lt (below : number < total) (some_ : 0 < range) : scaled total range number < range := by
  unfold scaled
  rw [Nat.div_lt_iff_lt_mul (Nat.zero_lt_of_lt below), Nat.mul_comm range total]
  exact Nat.mul_lt_mul_of_pos_right below some_

/-- The multiples of `range` in as many places as `count` of them take. -/
theorem multiples_between (start count : Nat) (some_ : 0 < range) :
    start ≤ number * range ∧ number * range < start + count * range <->
      (start + (range - 1)) / range ≤ number ∧ number < (start + (range - 1)) / range + count := by
  have shifted : forall other, start ≤ other * range <-> (start + (range - 1)) / range ≤ other := by
    intro other
    rw [Nat.div_le_iff_le_mul some_]
    omega
  rw [shifted number]
  generalize (start + (range - 1)) / range = least at shifted ⊢
  apply and_congr_right
  intro reached
  constructor
  · intro within
    by_contra far
    have behind := (shifted (number - count)).mpr (by omega)
    rw [Nat.sub_mul] at behind
    have enough : count * range ≤ number * range := Nat.mul_le_mul_right _ (by omega)
    omega
  · intro within
    by_contra far
    have behind := (shifted (number - count)).mp (by rw [Nat.sub_mul]; omega)
    have enough : count ≤ number := by
      by_contra few
      have more : (number + 1) * range ≤ count * range := Nat.mul_le_mul_right _ (by omega)
      rw [Nat.succ_mul] at more
      omega
    omega

/-- The numbers that become one value without being rejected lie in one stretch. -/
theorem accepts_scaled_iff (some_ : 0 < total) :
    Accepts total range number ∧ scaled total range number = value <->
      value * total + total % range ≤ number * range ∧ number * range < value * total + total := by
  have split := Nat.div_add_mod (number * range) total
  have below := Nat.mod_lt (number * range) some_
  unfold Accepts scaled
  constructor
  · rintro ⟨accepted, rfl⟩
    rw [Nat.mul_comm _ total]
    omega
  · rintro ⟨low, high⟩
    have same : number * range / total = value := by
      rw [Nat.div_eq_iff some_]
      constructor
      · omega
      · omega
    refine ⟨?_, same⟩
    rw [same, Nat.mul_comm] at split
    omega

/-- Every value comes up equally often. -/
theorem ncard_accepts_scaled (inRange : value < range) (few : range ≤ total) :
    {number | number < total ∧ Accepts total range number ∧ scaled total range number = value}.ncard =
      total / range := by
  have some_ : 0 < range := Nat.zero_lt_of_lt inRange
  have total_pos : 0 < total := Nat.lt_of_lt_of_le some_ few
  have width : total % range + total / range * range = total := by
    rw [Nat.mul_comm]
    exact Nat.mod_add_div total range
  have stretch : {number | number < total ∧ Accepts total range number ∧ scaled total range number = value} =
      Set.Ico ((value * total + total % range + (range - 1)) / range)
        ((value * total + total % range + (range - 1)) / range + total / range) := by
    ext number
    rw [Set.mem_ofPred_eq, accepts_scaled_iff total_pos, Set.mem_Ico, ← multiples_between _ _ some_,
      Nat.add_assoc _ (total % range), width]
    constructor
    · exact And.right
    · intro bounds
      refine ⟨?_, bounds⟩
      -- a number that becomes a value in range is itself below the total
      have last : (value + 1) * total ≤ range * total := Nat.mul_le_mul_right _ inRange
      rw [Nat.succ_mul] at last
      have lt : number * range < total * range := by
        rw [Nat.mul_comm total range]
        omega
      exact Nat.lt_of_mul_lt_mul_right lt
  rw [stretch, Set.ncard_Ico_nat, Nat.add_sub_cancel_left]

end Rejection
end Foundation
end TerseDsa
