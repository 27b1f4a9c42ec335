import Mathlib.Data.Nat.Bitwise
import Mathlib.Tactic.Common

namespace TerseDsa

/-!
# `size_t` and the bit queries

Sizes are 64-bit words.  Sums and products that the source guards with
`ckd_add` and `ckd_mul` return nothing on overflow; plain operators wrap.
-/

/-- How many values a `size_t` has. -/
def sizeRange : Nat := 2 ^ 64

/-- `SIZE_MAX`. -/
def sizeMax : Nat := sizeRange - 1

/-- C23's `ckd_add`: nothing when the sum does not fit. -/
def ckdAdd (a b : Nat) : Option Nat :=
  if a + b < sizeRange then some (a + b) else none

/-- C23's `ckd_mul`: nothing when the product does not fit. -/
def ckdMul (a b : Nat) : Option Nat :=
  if a * b < sizeRange then some (a * b) else none

/-- Unsigned `+`. -/
def wrapAdd (a b : Nat) : Nat := (a + b) % sizeRange

/-- Unsigned `-`. -/
def wrapSub (a b : Nat) : Nat := (a + (sizeRange - b % sizeRange)) % sizeRange

/-- Unsigned `*`. -/
def wrapMul (a b : Nat) : Nat := a * b % sizeRange

theorem wrapAdd_eq {a b : Nat} (fits : a + b < sizeRange) : wrapAdd a b = a + b :=
  Nat.mod_eq_of_lt fits

theorem wrapMul_eq {a b : Nat} (fits : a * b < sizeRange) : wrapMul a b = a * b :=
  Nat.mod_eq_of_lt fits

theorem wrapSub_eq {a b : Nat} (fits : a < sizeRange) (le : b ≤ a) : wrapSub a b = a - b := by
  have small : b < sizeRange := Nat.lt_of_le_of_lt le fits
  rw [wrapSub, Nat.mod_eq_of_lt small]
  have split : a + (sizeRange - b) = (a - b) + sizeRange := by omega
  rw [split, Nat.add_mod_right, Nat.mod_eq_of_lt (by omega)]

/-- A sum that wrapped comes back when enough is taken off again. -/
theorem wrapSub_wrapAdd {a b c : Nat} (le : c ≤ a + b) (fits : a + b - c < sizeRange) :
    wrapSub (wrapAdd a b) c = a + b - c := by
  unfold wrapSub wrapAdd sizeRange at *
  omega

/-- `tda_is_pow2`: whether exactly one bit is set. -/
def isPow2 (n : Nat) : Bool :=
  decide (0 < n) && decide (n &&& (n - 1) = 0)

@[simp] theorem isPow2_two_pow (k : Nat) : isPow2 (2 ^ k) = true := by
  simp only [isPow2, Nat.and_two_pow_sub_one_eq_mod, Nat.mod_self, decide_true, Bool.and_true,
    decide_eq_true_eq]
  exact Nat.two_pow_pos k

/-- Count zero bits from the bottom, looking at no more than `bits` of them. -/
def trailingZeros : (bits word : Nat) -> Nat
  | 0, _ => 0
  | bits + 1, word => if word % 2 = 1 then 0 else 1 + trailingZeros bits (word / 2)

/-- `tda_bit_ctz`: the index of the lowest set bit of a 64-bit word. -/
def bitCtz (word : Nat) : Nat := trailingZeros 64 word

theorem trailingZeros_two_pow {bits k : Nat} (within : k < bits) :
    trailingZeros bits (2 ^ k) = k := by
  induction k generalizing bits with
  | zero =>
      cases bits with
      | zero => exact absurd within (Nat.lt_irrefl 0)
      | succ bits => rfl
  | succ k ih =>
      cases bits with
      | zero => exact absurd within (Nat.not_lt_zero _)
      | succ bits =>
          have even : 2 ^ (k + 1) % 2 ≠ 1 := by rw [Nat.pow_succ]; omega
          have half : 2 ^ (k + 1) / 2 = 2 ^ k := by rw [Nat.pow_succ]; omega
          rw [trailingZeros, if_neg even, half, ih (by omega)]
          omega

/-- A power of two has its exponent many zero bits at the bottom. -/
theorem bitCtz_two_pow {k : Nat} (within : k < 64) : bitCtz (2 ^ k) = k :=
  trailingZeros_two_pow within

/-!
## The hash of a word
-/

/-- `HASH_SEED_64`. -/
def hashSeed64 : Nat := 0xa0761d6478bd642f

/-- `FMIX64_C1` and `FMIX64_C2`. -/
def fmix64C1 : Nat := 0xff51afd7ed558ccd
def fmix64C2 : Nat := 0xc4ceb9fe1a85ec53

/-- `hash_mix_u64`. -/
def hashMixU64 (val : Nat) : Nat :=
  let val := val ^^^ hashSeed64
  let val := val ^^^ (val >>> 33)
  let val := wrapMul val fmix64C1
  let val := val ^^^ (val >>> 33)
  let val := wrapMul val fmix64C2
  val ^^^ (val >>> 33)

/-- `tda_hash_u64`. -/
def hashU64 (val : Nat) : Nat := hashMixU64 val
end TerseDsa
