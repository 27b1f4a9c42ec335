import Mathlib.Data.Nat.Bitwise
import Mathlib.Tactic.Common

namespace TerseDsa
namespace Foundation

/-!
# Binary floating-point formats

A format has a sign, an exponent and a fraction, and its values are told by
their bit patterns.  The magnitude of a pattern is counted in the least
magnitude there is, so it is a natural number; infinity is the one that follows
the greatest finite magnitude.  Magnitudes tell all patterns of one sign apart.
-/

/-- The widths of the two fields below the sign. -/
structure FloatFormat where
  expBits : Nat
  fracBits : Nat

namespace FloatFormat

variable {format : FloatFormat}

/-- How many bits a pattern has. -/
def width (format : FloatFormat) : Nat := format.fracBits + format.expBits + 1

/-- How many patterns have one sign. -/
def halfRange (format : FloatFormat) : Nat := 2 ^ (format.fracBits + format.expBits)

/-- Whether the sign bit is set. -/
def negative (format : FloatFormat) (bits : Nat) : Bool := decide (format.halfRange ≤ bits)

/-- The pattern without its sign. -/
def unsigned (format : FloatFormat) (bits : Nat) : Nat := bits % format.halfRange

def exponent (format : FloatFormat) (bits : Nat) : Nat := format.unsigned bits / 2 ^ format.fracBits

def fraction (format : FloatFormat) (bits : Nat) : Nat := format.unsigned bits % 2 ^ format.fracBits

/-- Whether the pattern is not a number. -/
def isNan (format : FloatFormat) (bits : Nat) : Bool :=
  decide (format.exponent bits = 2 ^ format.expBits - 1 ∧ format.fraction bits ≠ 0)

/-- The magnitude, in units of the least one: a fraction alone below the normal numbers, and one with
its hidden bit shifted by the exponent from there on. -/
def magnitude (format : FloatFormat) (bits : Nat) : Nat :=
  if format.exponent bits = 0 then format.fraction bits
  else (2 ^ format.fracBits + format.fraction bits) * 2 ^ (format.exponent bits - 1)

/-- The value of a number, in the same units. -/
def value (format : FloatFormat) (bits : Nat) : Int :=
  if format.negative bits = true then -(format.magnitude bits : Int) else format.magnitude bits

/-- `<` of two numbers; one that is not a number is in no order. -/
def lt (format : FloatFormat) (a b : Nat) : Bool :=
  !format.isNan a && !format.isNan b && decide (format.value a < format.value b)

/-- `==` of two numbers. -/
def eq (format : FloatFormat) (a b : Nat) : Bool :=
  !format.isNan a && !format.isNan b && decide (format.value a = format.value b)

/-! ## Telling patterns apart -/

theorem halfRange_pos : 0 < format.halfRange := Nat.two_pow_pos _

theorem unsigned_eq (bits : Nat) :
    format.unsigned bits = 2 ^ format.fracBits * format.exponent bits + format.fraction bits :=
  (Nat.div_add_mod _ _).symm

theorem fraction_lt (bits : Nat) : format.fraction bits < 2 ^ format.fracBits := Nat.mod_lt _ (Nat.two_pow_pos _)

/-- A pattern is its sign and the rest. -/
theorem bits_eq {bits : Nat} (inside : bits < 2 ^ format.width) :
    bits = (if format.negative bits = true then format.halfRange else 0) + format.unsigned bits := by
  have range : 2 ^ format.width = format.halfRange + format.halfRange := by
    rw [width, halfRange, Nat.pow_succ]
    exact Nat.mul_two _
  rw [range] at inside
  unfold negative unsigned
  by_cases high : format.halfRange ≤ bits
  · rw [decide_eq_true high, if_pos rfl, Nat.mod_eq_sub_mod high, Nat.mod_eq_of_lt (by omega)]
    omega
  · rw [decide_eq_false high, if_neg Bool.false_ne_true, Nat.zero_add, Nat.mod_eq_of_lt (by omega)]

/-- A greater exponent makes a greater magnitude, whatever the fractions. -/
theorem magnitude_lt {a b : Nat} (less : format.exponent a < format.exponent b) :
    format.magnitude a < format.magnitude b := by
  have bound := format.fraction_lt a
  have above : 2 ^ format.fracBits * 2 ^ (format.exponent b - 1) ≤ format.magnitude b := by
    rw [magnitude, if_neg (by omega)]
    exact Nat.mul_le_mul_right _ (Nat.le_add_right _ _)
  refine Nat.lt_of_lt_of_le ?_ above
  by_cases least : format.exponent a = 0
  · rw [magnitude, if_pos least]
    exact Nat.lt_of_lt_of_le bound (Nat.le_mul_of_pos_right _ (Nat.two_pow_pos _))
  · rw [magnitude, if_neg least]
    have step : 2 ^ (format.exponent a - 1) * 2 = 2 ^ format.exponent a := by
      rw [← Nat.pow_succ]
      congr 1
      omega
    calc (2 ^ format.fracBits + format.fraction a) * 2 ^ (format.exponent a - 1)
        < (2 ^ format.fracBits + 2 ^ format.fracBits) * 2 ^ (format.exponent a - 1) :=
          Nat.mul_lt_mul_of_pos_right (by omega) (Nat.two_pow_pos _)
      _ = 2 ^ format.fracBits * 2 ^ format.exponent a := by rw [← step, ← Nat.mul_two, Nat.mul_assoc, Nat.mul_comm 2]
      _ ≤ 2 ^ format.fracBits * 2 ^ (format.exponent b - 1) :=
          Nat.mul_le_mul_left _ (Nat.pow_le_pow_right (by decide) (by omega))

theorem unsigned_of_magnitude {a b : Nat} (same : format.magnitude a = format.magnitude b) :
    format.unsigned a = format.unsigned b := by
  have exponents : format.exponent a = format.exponent b := by
    rcases Nat.lt_trichotomy (format.exponent a) (format.exponent b) with less | equal | greater
    · exact absurd same (Nat.ne_of_lt (magnitude_lt less))
    · exact equal
    · exact absurd same (Nat.ne_of_gt (magnitude_lt greater))
  have fractions : format.fraction a = format.fraction b := by
    unfold magnitude at same
    rw [exponents] at same
    by_cases least : format.exponent b = 0
    · rwa [if_pos least, if_pos least] at same
    · rw [if_neg least, if_neg least] at same
      exact Nat.add_left_cancel (Nat.eq_of_mul_eq_mul_right (Nat.two_pow_pos _) same)
  rw [unsigned_eq, unsigned_eq, exponents, fractions]

/-- The two zeros are the patterns of no magnitude. -/
theorem magnitude_eq_zero {bits : Nat} : format.magnitude bits = 0 <-> format.unsigned bits = 0 := by
  have zero : format.magnitude 0 = 0 := by
    unfold magnitude exponent fraction unsigned
    rw [Nat.zero_mod, Nat.zero_div, if_pos rfl, Nat.zero_mod]
  constructor
  · intro none_
    have same := unsigned_of_magnitude (none_.trans zero.symm)
    rw [same]
    exact Nat.zero_mod _
  · intro none_
    unfold magnitude exponent fraction
    rw [none_, Nat.zero_div, if_pos rfl, Nat.zero_mod]

theorem value_eq_zero {bits : Nat} : format.value bits = 0 <-> format.unsigned bits = 0 := by
  rw [← magnitude_eq_zero, value]
  split <;> omega

/-- One value has one pattern, zero excepted. -/
theorem value_eq_iff {a b : Nat} (insideA : a < 2 ^ format.width) (insideB : b < 2 ^ format.width) :
    format.value a = format.value b <-> a = b ∨ format.unsigned a = 0 ∧ format.unsigned b = 0 := by
  constructor
  · intro same
    have magnitudes : format.magnitude a = format.magnitude b := by
      unfold value at same
      split at same <;> split at same <;> omega
    have rest := unsigned_of_magnitude magnitudes
    by_cases none_ : format.unsigned a = 0
    · exact Or.inr ⟨none_, rest ▸ none_⟩
    · have some_ : format.magnitude a ≠ 0 := fun zero => none_ (magnitude_eq_zero.mp zero)
      have signs : format.negative a = format.negative b := by
        cases signA : format.negative a with
        | true =>
            cases signB : format.negative b with
            | true => rfl
            | false =>
                rw [value, value, signA, signB, if_pos rfl, if_neg Bool.false_ne_true] at same
                omega
        | false =>
            cases signB : format.negative b with
            | true =>
                rw [value, value, signA, signB, if_pos rfl, if_neg Bool.false_ne_true] at same
                omega
            | false => rfl
      rw [bits_eq insideA, bits_eq insideB, signs, rest]
      exact Or.inl rfl
  · rintro (rfl | ⟨noneA, noneB⟩)
    · rfl
    · rw [value_eq_zero.mpr noneA, value_eq_zero.mpr noneB]

theorem isNan_zero {bits : Nat} (none_ : format.unsigned bits = 0) : format.isNan bits = false := by
  unfold isNan fraction
  rw [none_, Nat.zero_mod]
  exact decide_eq_false fun both => both.2 rfl

end FloatFormat
end Foundation
end TerseDsa
