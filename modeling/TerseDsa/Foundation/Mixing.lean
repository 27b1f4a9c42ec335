import Mathlib.Logic.Function.Basic
import Mathlib.Tactic.Common
import Mathlib.Data.Set.Function
import Mathlib.Data.Nat.Bitwise
import Mathlib.Data.Int.ModEq

namespace TerseDsa

namespace Foundation

/-!
# Steps on words that lose nothing

A word is recovered from its exclusive or with itself shifted, from its product
with a unit, and from what it was rotated to.  A shift that moves a word at all
leaves no word but zero as it is, which is why the first is true of every
distance.
-/

variable {w shift : Nat} {word factor inverse first second : BitVec w}

/-- Only zero is left as it is by a shift to the right. -/
theorem eq_zero_of_ushiftRight (moves : 0 < shift) (same : word >>> shift = word) : word = 0 := by
  have numbers := congrArg BitVec.toNat same
  rw [BitVec.toNat_ushiftRight, Nat.shiftRight_eq_div_pow] at numbers
  apply BitVec.eq_of_toNat_eq
  rw [BitVec.ofNat_eq_ofNat, BitVec.toNat_ofNat, Nat.zero_mod]
  by_contra some_
  have smaller := Nat.div_lt_self (Nat.pos_of_ne_zero some_) (Nat.one_lt_two_pow (Nat.ne_of_gt moves))
  omega

/-- Only zero is left as it is by a shift to the left: each bit is one that is lower. -/
theorem eq_zero_of_shiftLeft (moves : 0 < shift) (same : word <<< shift = word) : word = 0 := by
  apply BitVec.eq_of_getLsbD_eq
  intro bit inside
  rw [BitVec.ofNat_eq_ofNat, BitVec.getLsbD_zero]
  induction bit using Nat.strongRecOn with
  | ind bit ih =>
      rw [← same, BitVec.getLsbD_shiftLeft]
      by_cases low : bit < shift
      · simp only [low, decide_true, Bool.not_true, Bool.and_false, Bool.false_and]
      · rw [ih (bit - shift) (by omega) (by omega), Bool.and_false]

/-- What a linear step that fixes only zero takes a word to tells the word by their exclusive or. -/
theorem xorLinear_injective {step : BitVec w -> BitVec w}
    (linear : forall first second, step (first ^^^ second) = step first ^^^ step second)
    (fixes : forall word, step word = word -> word = 0) : Function.Injective fun word => word ^^^ step word := by
  intro first second same
  dsimp only at same
  have still : step (first ^^^ second) = first ^^^ second := by
    rw [linear, eq_comm, ← BitVec.xor_eq_zero_iff, BitVec.xor_assoc, ← BitVec.xor_assoc second,
      BitVec.xor_comm second, BitVec.xor_assoc, ← BitVec.xor_assoc, same, BitVec.xor_self]
  exact BitVec.xor_eq_zero_iff.mp (fixes _ still)

theorem xorShiftRight_injective (moves : 0 < shift) :
    Function.Injective fun word : BitVec w => word ^^^ (word >>> shift) :=
  xorLinear_injective (fun first second => BitVec.ushiftRight_xor_distrib first second shift)
    fun _ => eq_zero_of_ushiftRight moves

theorem xorShiftLeft_injective (moves : 0 < shift) :
    Function.Injective fun word : BitVec w => word ^^^ (word <<< shift) :=
  xorLinear_injective (fun first second => BitVec.shiftLeft_xor_distrib first second shift)
    fun _ => eq_zero_of_shiftLeft moves

theorem mulWord_injective (unit : factor * inverse = 1) : Function.Injective fun word : BitVec w => word * factor := by
  intro first second same
  have back := congrArg (· * inverse) same
  simpa only [BitVec.mul_assoc, unit, BitVec.ofNat_eq_ofNat, BitVec.mul_one] using back

/-- Each bit of the word is a bit of what it was rotated to. -/
theorem rotateLeft_injective (inside : shift < w) : Function.Injective fun word : BitVec w => word.rotateLeft shift := by
  intro first second same
  have bits : forall bit, (first.rotateLeft shift).getLsbD bit = (second.rotateLeft shift).getLsbD bit :=
    fun bit => congrArg (fun word => BitVec.getLsbD word bit) same
  simp only [BitVec.getLsbD_rotateLeft_of_le inside] at bits
  apply BitVec.eq_of_getLsbD_eq
  intro bit below
  by_cases wraps : w - shift ≤ bit
  · have here := bits (bit - (w - shift))
    have low : bit - (w - shift) < shift := by omega
    have source : w - shift + (bit - (w - shift)) = bit := by omega
    simpa only [low, decide_true, cond_true, source] using here
  · have here := bits (bit + shift)
    have high : ¬ bit + shift < shift := by omega
    have fits : bit + shift < w := by omega
    simpa only [high, fits, decide_false, decide_true, cond_false, Bool.true_and, Nat.add_sub_cancel] using here

end Foundation

namespace Foundation

/-!
## Mixing words

The steps that mixers are made of, each a bijection of the words of `w` bits:
an exclusive or with a fixed word, one with the word itself shifted right by at
least half its bits, and a multiplication by a number that has an inverse.
-/

variable {w shift mask factor inverse word : Nat}

/-- The numbers that fit in `w` bits. -/
def words (w : Nat) : Set Nat := {word | word < 2 ^ w}

theorem mapsTo_xor (small : mask < 2 ^ w) : Set.MapsTo (· ^^^ mask) (words w) (words w) :=
  fun _ inside => Nat.xor_lt_two_pow inside small

/-- What is its own inverse is a bijection. -/
theorem bijOn_of_involution {f : Nat -> Nat} (maps : Set.MapsTo f (words w) (words w))
    (back : forall word, word ∈ words w -> f (f word) = word) : Set.BijOn f (words w) (words w) :=
  Set.InvOn.bijOn ⟨back, back⟩ maps maps

theorem bijOn_xor (small : mask < 2 ^ w) : Set.BijOn (· ^^^ mask) (words w) (words w) := by
  refine bijOn_of_involution (mapsTo_xor small) fun word _ => ?_
  rw [Nat.xor_assoc, Nat.xor_self, Nat.xor_zero]

/-- A shift by at least half the bits, taken twice, shifts all of them out. -/
theorem bijOn_xorShift (half : w ≤ shift + shift) :
    Set.BijOn (fun word => word ^^^ (word >>> shift)) (words w) (words w) := by
  refine bijOn_of_involution (fun word inside => ?_) fun word inside => ?_
  · exact Nat.xor_lt_two_pow inside (Nat.lt_of_le_of_lt (Nat.shiftRight_le word shift) inside)
  · have gone : word >>> (shift + shift) = 0 := by
      rw [Nat.shiftRight_eq_div_pow]
      exact Nat.div_eq_of_lt (Nat.lt_of_lt_of_le inside (Nat.pow_le_pow_right (by omega) half))
    rw [Nat.shiftRight_xor_distrib, ← Nat.shiftRight_add, gone, Nat.xor_zero, Nat.xor_assoc, Nat.xor_self,
      Nat.xor_zero]

/-- Multiplying by a number and by its inverse is multiplying by one. -/
theorem bijOn_mul (unit : factor * inverse % 2 ^ w = 1 % 2 ^ w) :
    Set.BijOn (fun word => word * factor % 2 ^ w) (words w) (words w) := by
  have positive : 0 < 2 ^ w := Nat.two_pow_pos w
  have back : forall {first second}, first * second % 2 ^ w = 1 % 2 ^ w -> forall word, word ∈ words w ->
      word * first % 2 ^ w * second % 2 ^ w = word := by
    intro first second one word inside
    rw [Nat.mod_mul_mod, Nat.mul_assoc, Nat.mul_mod, one, ← Nat.mul_mod, Nat.mul_one, Nat.mod_eq_of_lt inside]
  have inv : Set.InvOn (fun word => word * inverse % 2 ^ w) (fun word => word * factor % 2 ^ w) (words w) (words w) :=
    ⟨back unit, back (by rwa [Nat.mul_comm])⟩
  exact inv.bijOn (fun word _ => Nat.mod_lt _ positive) fun word _ => Nat.mod_lt _ positive

/-- An addition is undone by the complement. -/
theorem injOn_add (offset : Nat) : Set.InjOn (fun word => (word + offset) % 2 ^ w) (words w) := by
  intro first inside second insideToo same
  have sum : Nat.ModEq (2 ^ w) (first + offset) (second + offset) := same
  have plain : Nat.ModEq (2 ^ w) first second := Nat.ModEq.add_right_cancel' offset sum
  exact Nat.ModEq.eq_of_lt_of_lt plain inside insideToo

end Foundation
end TerseDsa
