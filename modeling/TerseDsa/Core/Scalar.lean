import TerseDsa.Core.Size
import TerseDsa.Foundation.Ieee
import TerseDsa.Foundation.Mixing

namespace TerseDsa

open Foundation

/-!
# The ready-made hashers and equalities

`core/hash` and `core/cmp` for one elem type after another.  A float is told by
its bit pattern, a `char` by its byte, and a string by its address and the
bytes there up to the null.
-/

/-! ## Integers -/

/-- The conversion to `uint64_t`. -/
def toWord (val : Int) : Nat := (val % (sizeRange : Int)).toNat

/-- `DEFINE_HASH_INT`. -/
def hashInt (val : Int) : Nat := hashMixU64 (toWord val)

/-- `DEFINE_CMP_INT`. -/
def cmpInt (a b : Int) : Int := (if a > b then 1 else 0) - (if a < b then 1 else 0)

/-- `DEFINE_EQ`, of what the comparator answers. -/
def eqOf (order : Int) : Bool := decide (order = 0)

/-- `cmp_i8`, `tda_eq_i8` and `tda_hash_i8`; the other integer types alike. -/
def cmpI8 (a b : Int8) : Int := cmpInt a.toInt b.toInt
def eqI8 (a b : Int8) : Bool := eqOf (cmpI8 a b)
def hashI8 (val : Int8) : Nat := hashInt val.toInt

def cmpI16 (a b : Int16) : Int := cmpInt a.toInt b.toInt
def eqI16 (a b : Int16) : Bool := eqOf (cmpI16 a b)
def hashI16 (val : Int16) : Nat := hashInt val.toInt

def cmpI32 (a b : Int32) : Int := cmpInt a.toInt b.toInt
def eqI32 (a b : Int32) : Bool := eqOf (cmpI32 a b)
def hashI32 (val : Int32) : Nat := hashInt val.toInt

def cmpI64 (a b : Int64) : Int := cmpInt a.toInt b.toInt
def eqI64 (a b : Int64) : Bool := eqOf (cmpI64 a b)
def hashI64 (val : Int64) : Nat := hashInt val.toInt

def cmpU8 (a b : UInt8) : Int := cmpInt a.toNat b.toNat
def eqU8 (a b : UInt8) : Bool := eqOf (cmpU8 a b)
def hashU8 (val : UInt8) : Nat := hashInt val.toNat

def cmpU16 (a b : UInt16) : Int := cmpInt a.toNat b.toNat
def eqU16 (a b : UInt16) : Bool := eqOf (cmpU16 a b)
def hashU16 (val : UInt16) : Nat := hashInt val.toNat

def cmpU32 (a b : UInt32) : Int := cmpInt a.toNat b.toNat
def eqU32 (a b : UInt32) : Bool := eqOf (cmpU32 a b)
def hashU32 (val : UInt32) : Nat := hashInt val.toNat

def cmpU64 (a b : UInt64) : Int := cmpInt a.toNat b.toNat
def eqU64 (a b : UInt64) : Bool := eqOf (cmpU64 a b)

def cmpSize (a b : UInt64) : Int := cmpInt a.toNat b.toNat
def eqSize (a b : UInt64) : Bool := eqOf (cmpSize a b)
def hashSize (val : UInt64) : Nat := hashInt val.toNat

def cmpPtrdiff (a b : Int64) : Int := cmpInt a.toInt b.toInt
def eqPtrdiff (a b : Int64) : Bool := eqOf (cmpPtrdiff a b)
def hashPtrdiff (val : Int64) : Nat := hashInt val.toInt

/-- `cmp_char`, of the two read as `unsigned char`. -/
def cmpChar (a b : UInt8) : Int := cmpInt a.toNat b.toNat
def eqChar (a b : UInt8) : Bool := eqOf (cmpChar a b)
def hashChar (val : UInt8) : Nat := hashInt val.toNat

/-! ## Floats -/

/-- `float` and `double`. -/
def floatF32 : FloatFormat := ⟨8, 23⟩
def floatF64 : FloatFormat := ⟨11, 52⟩

/-- `NAN_CANON_32` and `NAN_CANON_64`. -/
def nanCanon32 : Nat := 0x7fc00000
def nanCanon64 : Nat := 0x7ff8000000000000

/-- `DEFINE_CMP_FLOAT`. -/
def cmpFloat (format : FloatFormat) (a b : Nat) : Int :=
  let aNan := format.isNan a
  let bNan := format.isNan b
  if aNan = true ∨ bNan = true then
    if aNan = true ∧ bNan = true then 0
    else if aNan = true then 1 else -1
  else
    (if format.lt b a = true then 1 else 0) - (if format.lt a b = true then 1 else 0)

/-- `tda_hash_f32` and `tda_hash_f64`, of the bits and the pattern that stands for every one that is not a
number; the pattern of positive zero has no bit set. -/
def hashFloat (format : FloatFormat) (nanCanon : Nat) (val : Nat) : Nat :=
  let f := if format.eq val 0 = true then 0 else val
  let bits := f
  let bits := if format.isNan f = true then nanCanon else bits
  hashMixU64 bits

def cmpF32 (a b : BitVec 32) : Int := cmpFloat floatF32 a.toNat b.toNat
def eqF32 (a b : BitVec 32) : Bool := eqOf (cmpF32 a b)
def hashF32 (val : BitVec 32) : Nat := hashFloat floatF32 nanCanon32 val.toNat

def cmpF64 (a b : BitVec 64) : Int := cmpFloat floatF64 a.toNat b.toNat
def eqF64 (a b : BitVec 64) : Bool := eqOf (cmpF64 a b)
def hashF64 (val : BitVec 64) : Nat := hashFloat floatF64 nanCanon64 val.toNat

/-! ## Bytes and strings -/

/-- `FNV_OFFSET_BASIS_64` and `FNV_PRIME_64`. -/
def fnvOffsetBasis64 : Nat := 14695981039346656037
def fnvPrime64 : Nat := 1099511628211

/-- `tda_hash_bytes`. -/
def hashBytes (bytes : List UInt8) : Nat :=
  hashMixU64 (bytes.foldl (fun hash byte => wrapMul (hash ^^^ byte.toNat) fnvPrime64) fnvOffsetBasis64)

/-- The strings in memory: the bytes at an address, up to the null. -/
abbrev Strings := Nat -> Option (List UInt8)

/-- `strcmp`: the first bytes that differ decide, and a string goes before a longer one. -/
def strcmp : List UInt8 -> List UInt8 -> Int
  | [], [] => 0
  | [], _ :: _ => -1
  | _ :: _, [] => 1
  | a :: as, b :: bs => if a = b then strcmp as bs else (a.toNat : Int) - b.toNat

/-- `cmp_cstr`; comparing what is no string is an error. -/
def cmpCstr (strings : Strings) (lhs rhs : Option Nat) : Option Int :=
  if lhs = rhs then some 0
  else
    match lhs, rhs with
    | none, _ => some (-1)
    | _, none => some 1
    | some a, some b => do
        let as ← strings a
        let bs ← strings b
        let c := strcmp as bs
        return (if c > 0 then 1 else 0) - (if c < 0 then 1 else 0)

/-- `tda_eq_cstr`. -/
def eqCstr (strings : Strings) (lhs rhs : Option Nat) : Option Bool := do
  let order ← cmpCstr strings lhs rhs
  return eqOf order

/-- `tda_hash_cstr`. -/
def hashCstr (strings : Strings) (str : Option Nat) : Option Nat :=
  match str with
  | none => some (hashMixU64 0)
  | some addr => do
      let bytes ← strings addr
      return hashBytes bytes

/-! ## Combining -/

/-- `HASH_GOLDEN_64`. -/
def hashGolden64 : Nat := 0x9e3779b97f4a7c15

/-- `tda_hash_combine`. -/
def hashCombine (a b : Nat) : Nat :=
  let hash := a
  let hash := hash ^^^ wrapAdd (wrapAdd (wrapAdd b hashGolden64) ((hash <<< 6) % sizeRange)) (hash >>> 2)
  hashMixU64 hash

/-! ## The mixer -/

/-- The mixer is a bijection of the 64-bit words. -/
theorem bijOn_hashMixU64 : Set.BijOn hashMixU64 (words 64) (words 64) := by
  have seed : Set.BijOn (· ^^^ hashSeed64) (words 64) (words 64) := bijOn_xor (by decide)
  have shift : Set.BijOn (fun word => word ^^^ (word >>> 33)) (words 64) (words 64) := bijOn_xorShift (by decide)
  have first : Set.BijOn (fun word => word * fmix64C1 % 2 ^ 64) (words 64) (words 64) :=
    bijOn_mul (show fmix64C1 * 0x4f74430c22a54005 % 2 ^ 64 = 1 % 2 ^ 64 by decide)
  have second : Set.BijOn (fun word => word * fmix64C2 % 2 ^ 64) (words 64) (words 64) :=
    bijOn_mul (show fmix64C2 * 0x9cb4b2f8129337db % 2 ^ 64 = 1 % 2 ^ 64 by decide)
  exact shift.comp (second.comp (shift.comp (first.comp (shift.comp seed))))

theorem hashMixU64_inj {a b : Nat} (insideA : a < 2 ^ 64) (insideB : b < 2 ^ 64) :
    hashMixU64 a = hashMixU64 b <-> a = b :=
  bijOn_hashMixU64.injOn.eq_iff insideA insideB

/-! ## Integers agree -/

theorem toWord_lt (val : Int) : toWord val < 2 ^ 64 := by
  unfold toWord sizeRange
  omega

theorem eqOf_cmpInt {a b : Int} : eqOf (cmpInt a b) = true <-> a = b := by
  unfold eqOf cmpInt
  rw [decide_eq_true_eq]
  split <;> split <;> omega

theorem hashInt_natural {val : Nat} (inside : val < 2 ^ 64) : hashInt val = hashU64 val := by
  have same : toWord val = val := by
    unfold toWord sizeRange
    omega
  rw [hashInt, same, hashU64]

/-- Widening to a word keeps integers apart that are less than its range apart. -/
theorem hashInt_inj {a b : Int} (above : a - b < sizeRange) (below : b - a < sizeRange) :
    hashInt a = hashInt b <-> a = b := by
  rw [hashInt, hashInt, hashMixU64_inj (toWord_lt a) (toWord_lt b)]
  unfold toWord sizeRange at *
  omega

/-- The rule for every integer type: its values are integers of a range no wider than a word's. -/
theorem agrees_int {T : Type} {read : T -> Int} (injective : Function.Injective read) {least : Int}
    (range : forall val, least ≤ read val ∧ read val < least + sizeRange) (a b : T) :
    (eqOf (cmpInt (read a) (read b)) = true <-> a = b) ∧
      (eqOf (cmpInt (read a) (read b)) = true <-> hashInt (read a) = hashInt (read b)) := by
  have rangeA := range a
  have rangeB := range b
  rw [eqOf_cmpInt, hashInt_inj (by omega) (by omega)]
  exact ⟨injective.eq_iff, Iff.rfl⟩

/-- The rule for those that are never negative. -/
theorem agrees_natural {T : Type} {read : T -> Nat} (injective : Function.Injective read)
    (range : forall val, read val < sizeRange) (a b : T) :
    (eqOf (cmpInt (read a) (read b)) = true <-> a = b) ∧
      (eqOf (cmpInt (read a) (read b)) = true <-> hashInt (read a) = hashInt (read b)) := by
  have between : forall val, 0 ≤ (read val : Int) ∧ (read val : Int) < 0 + sizeRange := by
    intro val
    have below := range val
    omega
  exact agrees_int (fun _ _ same => injective (Int.ofNat_inj.mp same)) between a b

/-! ## Floats agree -/

section Floats

variable {format : FloatFormat} {a b : Nat}

/-- Two patterns of one value: not a number, zero, or the same. -/
def SameFloat (format : FloatFormat) (a b : Nat) : Prop :=
  (format.isNan a = true ∧ format.isNan b = true) ∨ (format.unsigned a = 0 ∧ format.unsigned b = 0) ∨ a = b

/-- A number and what is not one are never of one value. -/
theorem not_sameFloat {x y : Nat} (xNan : format.isNan x = true) (yNumber : format.isNan y = false) :
    ¬ SameFloat format x y ∧ ¬ SameFloat format y x := by
  have some_ : format.unsigned x ≠ 0 := fun none_ => by
    rw [FloatFormat.isNan_zero none_] at xNan
    cases xNan
  have different : x ≠ y := by
    rintro rfl
    rw [xNan] at yNumber
    cases yNumber
  unfold SameFloat
  simp [xNan, yNumber, some_, different, different.symm]

theorem eqOf_cmpFloat (insideA : a < 2 ^ format.width) (insideB : b < 2 ^ format.width) :
    eqOf (cmpFloat format a b) = true <-> SameFloat format a b := by
  have values := FloatFormat.value_eq_iff insideA insideB
  unfold eqOf cmpFloat
  rw [decide_eq_true_eq]
  cases aNan : format.isNan a with
  | true =>
      cases bNan : format.isNan b with
      | true => exact iff_of_true rfl (Or.inl ⟨aNan, bNan⟩)
      | false => exact iff_of_false (by simp) (not_sameFloat aNan bNan).1
  | false =>
      cases bNan : format.isNan b with
      | true => exact iff_of_false (by simp) (not_sameFloat bNan aNan).2
      | false =>
          have ordered : ((if format.lt b a = true then (1 : Int) else 0) - (if format.lt a b = true then 1 else 0) = 0) <->
              format.value a = format.value b := by
            unfold FloatFormat.lt
            simp only [aNan, bNan, Bool.not_false, Bool.true_and, decide_eq_true_eq]
            split <;> split <;> omega
          unfold SameFloat
          simp only [aNan, Bool.false_eq_true, or_self, if_false, false_and, false_or]
          rw [ordered, values, or_comm]

/-- The pattern that is hashed in place of every pattern of the value. -/
def canonical (format : FloatFormat) (nanCanon val : Nat) : Nat :=
  if format.isNan val = true then nanCanon else if format.unsigned val = 0 then 0 else val

theorem hashFloat_eq {nanCanon val : Nat} :
    hashFloat format nanCanon val = hashMixU64 (canonical format nanCanon val) := by
  have zero : format.unsigned 0 = 0 := Nat.zero_mod _
  unfold hashFloat canonical FloatFormat.eq
  cases valNan : format.isNan val with
  | true => simp only [Bool.not_true, Bool.false_and, Bool.false_eq_true, if_false, valNan, if_true]
  | false =>
      simp only [FloatFormat.isNan_zero zero, FloatFormat.value_eq_zero.mpr zero, Bool.not_false, Bool.true_and,
        decide_eq_true_eq, FloatFormat.value_eq_zero]
      by_cases none_ : format.unsigned val = 0
      · simp only [none_, if_true, FloatFormat.isNan_zero zero, Bool.false_eq_true, if_false]
      · simp only [none_, if_false, valNan, Bool.false_eq_true]

theorem canonical_eq_iff {nanCanon : Nat} (isNan : format.isNan nanCanon = true) :
    canonical format nanCanon a = canonical format nanCanon b <-> SameFloat format a b := by
  -- what is a number stands for itself or is zero, and so is no pattern that is not a number
  have number : forall {val}, format.isNan val = false -> nanCanon ≠ if format.unsigned val = 0 then 0 else val := by
    intro val valNumber same
    rw [same] at isNan
    split at isNan
    · rw [FloatFormat.isNan_zero (Nat.zero_mod _)] at isNan
      cases isNan
    · rw [valNumber] at isNan
      cases isNan
  unfold canonical
  cases aNan : format.isNan a with
  | true =>
      cases bNan : format.isNan b with
      | true => exact iff_of_true rfl (Or.inl ⟨aNan, bNan⟩)
      | false =>
          rw [if_pos rfl, if_neg Bool.false_ne_true]
          exact iff_of_false (number bNan) (not_sameFloat aNan bNan).1
  | false =>
      cases bNan : format.isNan b with
      | true =>
          rw [if_pos rfl, if_neg Bool.false_ne_true]
          exact iff_of_false (number aNan).symm (not_sameFloat bNan aNan).2
      | false =>
          rw [if_neg Bool.false_ne_true, if_neg Bool.false_ne_true]
          unfold SameFloat
          rw [aNan]
          by_cases noneA : format.unsigned a = 0
          · by_cases noneB : format.unsigned b = 0
            · simp [noneA, noneB]
            · have someB : b ≠ 0 := fun zero => noneB (by rw [zero]; exact Nat.zero_mod _)
              have different : a ≠ b := fun same => noneB (same ▸ noneA)
              simp [noneA, noneB, someB.symm, different]
          · by_cases noneB : format.unsigned b = 0
            · have someA : a ≠ 0 := fun zero => noneA (by rw [zero]; exact Nat.zero_mod _)
              have different : a ≠ b := fun same => noneA (same ▸ noneB)
              simp [noneA, noneB, someA, different]
            · simp [noneA, noneB]

/-- The rule for both float types: their patterns are words, and so is the one that stands for those that
are not numbers. -/
theorem agrees_float {nanCanon : Nat} (isNan : format.isNan nanCanon = true) (canon : nanCanon < 2 ^ 64)
    (narrow : format.width ≤ 64) (insideA : a < 2 ^ format.width) (insideB : b < 2 ^ format.width) :
    (eqOf (cmpFloat format a b) = true <-> SameFloat format a b) ∧
      (eqOf (cmpFloat format a b) = true <-> hashFloat format nanCanon a = hashFloat format nanCanon b) := by
  have word : forall {val}, val < 2 ^ format.width -> canonical format nanCanon val < 2 ^ 64 := by
    intro val inside
    have small : val < 2 ^ 64 := Nat.lt_of_lt_of_le inside (Nat.pow_le_pow_right (by decide) narrow)
    unfold canonical
    split
    · exact canon
    · split
      · exact Nat.two_pow_pos 64
      · exact small
  refine ⟨eqOf_cmpFloat insideA insideB, ?_⟩
  rw [eqOf_cmpFloat insideA insideB, hashFloat_eq, hashFloat_eq, hashMixU64_inj (word insideA) (word insideB),
    canonical_eq_iff isNan]

end Floats

/-! ## Strings agree -/

theorem strcmp_eq_zero : forall {as bs : List UInt8}, strcmp as bs = 0 <-> as = bs
  | [], [] => iff_of_true rfl rfl
  | [], b :: bs => iff_of_false (by rw [strcmp]; decide) (List.cons_ne_nil b bs).symm
  | a :: as, [] => iff_of_false (by rw [strcmp]; decide) (List.cons_ne_nil a as)
  | a :: as, b :: bs => by
      rw [strcmp]
      by_cases same : a = b
      · rw [if_pos same, strcmp_eq_zero, same, List.cons.injEq, and_iff_right rfl]
      · have apart : a.toNat ≠ b.toNat := fun equal => same (UInt8.toNat_inj.mp equal)
        rw [if_neg same]
        refine iff_of_false (by omega) fun equal => same (List.cons.inj equal).1

/-- Two pointers to strings: both null, or to the same bytes. -/
def SameString (strings : Strings) (lhs rhs : Option Nat) : Prop :=
  (lhs = none ∧ rhs = none) ∨ exists a b bytes, lhs = some a ∧ rhs = some b ∧ strings a = some bytes ∧
    strings b = some bytes

/-- A pointer that may be read: null, or to a string. -/
def Readable (strings : Strings) (str : Option Nat) : Prop := forall addr, str = some addr -> (strings addr).isSome = true

theorem eqCstr_eq {strings : Strings} {lhs rhs : Option Nat} (readL : Readable strings lhs) (readR : Readable strings rhs) :
    exists answer, eqCstr strings lhs rhs = some answer ∧ (answer = true <-> SameString strings lhs rhs) := by
  unfold eqCstr cmpCstr
  by_cases same : lhs = rhs
  · subst same
    rw [if_pos rfl]
    refine ⟨true, rfl, iff_of_true rfl ?_⟩
    cases lhs with
    | none => exact Or.inl ⟨rfl, rfl⟩
    | some addr =>
        rcases Option.isSome_iff_exists.mp (readL addr rfl) with ⟨bytes, at_⟩
        exact Or.inr ⟨addr, addr, bytes, rfl, rfl, at_, at_⟩
  · rw [if_neg same]
    cases lhs with
    | none =>
        refine ⟨false, rfl, iff_of_false Bool.false_ne_true ?_⟩
        rintro (⟨_, rfl⟩ | ⟨a, b, bytes, impossible, _⟩)
        · exact same rfl
        · cases impossible
    | some a =>
        cases rhs with
        | none =>
            refine ⟨false, rfl, iff_of_false Bool.false_ne_true ?_⟩
            rintro (⟨impossible, _⟩ | ⟨_, b, bytes, _, impossible, _⟩)
            · cases impossible
            · cases impossible
        | some b =>
            rcases Option.isSome_iff_exists.mp (readL a rfl) with ⟨as, atA⟩
            rcases Option.isSome_iff_exists.mp (readR b rfl) with ⟨bs, atB⟩
            refine ⟨eqOf ((if strcmp as bs > 0 then 1 else 0) - (if strcmp as bs < 0 then 1 else 0)), ?_, ?_⟩
            · simp only [atA, atB]
              rfl
            · have sign : eqOf ((if strcmp as bs > 0 then 1 else 0) - (if strcmp as bs < 0 then 1 else 0)) = true <->
                  strcmp as bs = 0 := by
                unfold eqOf
                rw [decide_eq_true_eq]
                split <;> split <;> omega
              rw [sign, strcmp_eq_zero]
              constructor
              · rintro rfl
                exact Or.inr ⟨a, b, as, rfl, rfl, atA, atB⟩
              · rintro (⟨impossible, _⟩ | ⟨_, _, bytes, isA, isB, atA', atB'⟩)
                · cases impossible
                · cases isA
                  cases isB
                  rw [atA, Option.some_inj] at atA'
                  rw [atB, Option.some_inj] at atB'
                  rw [atA', atB']

theorem hashCstr_eq {strings : Strings} {lhs rhs : Option Nat} (same : SameString strings lhs rhs) :
    hashCstr strings lhs = hashCstr strings rhs := by
  rcases same with ⟨rfl, rfl⟩ | ⟨a, b, bytes, rfl, rfl, atA, atB⟩
  · rfl
  · unfold hashCstr
    dsimp only
    rw [atA, atB]

/-! ## Combined hashes -/

theorem hashCombine_eq (a b : Nat) : hashCombine a b =
    hashMixU64 ((b + (hashGolden64 + (a <<< 6) % sizeRange + a >>> 2)) % 2 ^ 64 ^^^ a) := by
  have sum : wrapAdd (wrapAdd (wrapAdd b hashGolden64) ((a <<< 6) % sizeRange)) (a >>> 2) =
      (b + (hashGolden64 + (a <<< 6) % sizeRange + a >>> 2)) % 2 ^ 64 := by
    unfold wrapAdd sizeRange
    omega
  unfold hashCombine
  dsimp only
  rw [sum, Nat.xor_comm]

theorem injOn_hashCombine {a : Nat} (inside : a < 2 ^ 64) : Set.InjOn (hashCombine a) (words 64) := by
  have mixed : Set.InjOn (fun word => hashMixU64 (word ^^^ a)) (words 64) :=
    (bijOn_hashMixU64.injOn.comp (bijOn_xor inside).injOn (mapsTo_xor inside))
  intro b insideB c insideC same
  rw [hashCombine_eq, hashCombine_eq] at same
  have word : forall val : Nat, val % 2 ^ 64 ∈ words 64 := fun val => Nat.mod_lt _ (Nat.two_pow_pos 64)
  exact injOn_add _ insideB insideC (mixed (word _) (word _) same)

/-! ## Every ready-made type -/

/-- The ready-made scalar types. -/
inductive Scalar where
  | i8 | i16 | i32 | i64 | u8 | u16 | u32 | u64 | size | ptrdiff | f32 | f64 | char
  deriving DecidableEq

namespace Scalar

/-- The values of a type. -/
def Val : Scalar -> Type
  | i8 => Int8
  | i16 => Int16
  | i32 => Int32
  | i64 => Int64
  | u8 => UInt8
  | u16 => UInt16
  | u32 => UInt32
  | u64 => UInt64
  | size => UInt64
  | ptrdiff => Int64
  | f32 => BitVec 32
  | f64 => BitVec 64
  | char => UInt8

/-- Its equality. -/
def eq : (type : Scalar) -> type.Val -> type.Val -> Bool
  | i8 => eqI8
  | i16 => eqI16
  | i32 => eqI32
  | i64 => eqI64
  | u8 => eqU8
  | u16 => eqU16
  | u32 => eqU32
  | u64 => eqU64
  | size => eqSize
  | ptrdiff => eqPtrdiff
  | f32 => eqF32
  | f64 => eqF64
  | char => eqChar

/-- Its hasher. -/
def hash : (type : Scalar) -> type.Val -> Nat
  | i8 => hashI8
  | i16 => hashI16
  | i32 => hashI32
  | i64 => hashI64
  | u8 => hashU8
  | u16 => hashU16
  | u32 => hashU32
  | u64 => fun val : UInt64 => hashU64 val.toNat
  | size => hashSize
  | ptrdiff => hashPtrdiff
  | f32 => hashF32
  | f64 => hashF64
  | char => hashChar

/-- When two of its values are one: integers and chars that are the same, floats by their patterns. -/
def Same : (type : Scalar) -> type.Val -> type.Val -> Prop
  | f32 => fun a b : BitVec 32 => (floatF32.isNan a.toNat = true ∧ floatF32.isNan b.toNat = true) ∨
      ((a = 0x00000000#32 ∨ a = 0x80000000#32) ∧ (b = 0x00000000#32 ∨ b = 0x80000000#32)) ∨ a = b
  | f64 => fun a b : BitVec 64 => (floatF64.isNan a.toNat = true ∧ floatF64.isNan b.toNat = true) ∨
      ((a = 0x0000000000000000#64 ∨ a = 0x8000000000000000#64) ∧
        (b = 0x0000000000000000#64 ∨ b = 0x8000000000000000#64)) ∨ a = b
  | i8 | i16 | i32 | i64 | u8 | u16 | u32 | u64 | size | ptrdiff | char => (· = ·)

end Scalar

/-- How hashers go with equalities: the mixer is a bijection of words; of every scalar type the equality
holds of the values that are one, and of those whose hashes are the same; strings that are the same are
equal and hash alike; and of a combined hash the second part can be told if the first is known. -/
structure HashersAgree : Prop where
  mixer : Set.BijOn hashMixU64 (words 64) (words 64)
  scalar : forall (type : Scalar) (a b : type.Val),
    (type.eq a b = true <-> type.Same a b) ∧ (type.eq a b = true <-> type.hash a = type.hash b)
  cstr : forall strings lhs rhs, Readable strings lhs -> Readable strings rhs ->
    exists answer, eqCstr strings lhs rhs = some answer ∧ (answer = true <-> SameString strings lhs rhs) ∧
      (SameString strings lhs rhs -> hashCstr strings lhs = hashCstr strings rhs)
  combine : forall a, a < 2 ^ 64 -> Set.InjOn (hashCombine a) (words 64)

/-- The patterns of zero are the one without a bit set and the one with the sign alone. -/
theorem zero_pattern {format : FloatFormat} (a : BitVec format.width) :
    format.unsigned a.toNat = 0 <-> a = 0 ∨ a = BitVec.ofNat format.width format.halfRange := by
  have range : 2 ^ format.width = 2 * format.halfRange := by
    rw [FloatFormat.width, FloatFormat.halfRange, Nat.pow_succ, Nat.mul_comm]
  have half := format.halfRange_pos
  have inside := a.isLt
  have sign : (BitVec.ofNat format.width format.halfRange).toNat = format.halfRange := by
    rw [BitVec.toNat_ofNat]
    exact Nat.mod_eq_of_lt (by omega)
  have zero : (0 : BitVec format.width).toNat = 0 := BitVec.toNat_zero
  rw [← BitVec.toNat_inj, ← BitVec.toNat_inj, sign, zero]
  unfold FloatFormat.unsigned
  constructor
  · intro none_
    by_cases below : a.toNat < format.halfRange
    · rw [Nat.mod_eq_of_lt below] at none_
      exact Or.inl none_
    · rw [Nat.mod_eq_sub_mod (by omega), Nat.mod_eq_of_lt (by omega)] at none_
      exact Or.inr (by omega)
  · rintro (none_ | whole)
    · rw [none_, Nat.zero_mod]
    · rw [whole, Nat.mod_self]

theorem sameFloat_iff (format : FloatFormat) (a b : BitVec format.width) :
    SameFloat format a.toNat b.toNat <-> (format.isNan a.toNat = true ∧ format.isNan b.toNat = true) ∨
      ((a = 0 ∨ a = BitVec.ofNat format.width format.halfRange) ∧
        (b = 0 ∨ b = BitVec.ofNat format.width format.halfRange)) ∨ a = b := by
  unfold SameFloat
  rw [zero_pattern, zero_pattern, BitVec.toNat_inj]

theorem hashers_agree : HashersAgree where
  mixer := bijOn_hashMixU64
  scalar type a b := by
    cases type with
    | i8 =>
        exact agrees_int (fun _ _ => Int8.toInt_inj.mp)
          (fun val => ⟨Int8.le_toInt val, Int.lt_trans (Int8.toInt_lt val) (by decide)⟩) a b
    | i16 =>
        exact agrees_int (fun _ _ => Int16.toInt_inj.mp)
          (fun val => ⟨Int16.le_toInt val, Int.lt_trans (Int16.toInt_lt val) (by decide)⟩) a b
    | i32 =>
        exact agrees_int (fun _ _ => Int32.toInt_inj.mp)
          (fun val => ⟨Int32.le_toInt val, Int.lt_trans (Int32.toInt_lt val) (by decide)⟩) a b
    | i64 =>
        exact agrees_int (fun _ _ => Int64.toInt_inj.mp)
          (fun val => ⟨Int64.le_toInt val, Int.lt_of_lt_of_le (Int64.toInt_lt val) (by decide)⟩) a b
    | ptrdiff =>
        exact agrees_int (fun _ _ => Int64.toInt_inj.mp)
          (fun val => ⟨Int64.le_toInt val, Int.lt_of_lt_of_le (Int64.toInt_lt val) (by decide)⟩) a b
    | u8 | char =>
        exact agrees_natural (fun _ _ => UInt8.toNat_inj.mp) (fun val => Nat.lt_trans val.toNat_lt (by decide)) a b
    | u16 =>
        exact agrees_natural (fun _ _ => UInt16.toNat_inj.mp) (fun val => Nat.lt_trans val.toNat_lt (by decide)) a b
    | u32 =>
        exact agrees_natural (fun _ _ => UInt32.toNat_inj.mp) (fun val => Nat.lt_trans val.toNat_lt (by decide)) a b
    | size => exact agrees_natural (fun _ _ => UInt64.toNat_inj.mp) (fun val => val.toNat_lt) a b
    | u64 =>
        rcases agrees_natural (fun _ _ => UInt64.toNat_inj.mp) (fun val => val.toNat_lt) a b with ⟨same, alike⟩
        rw [hashInt_natural (UInt64.toNat_lt a), hashInt_natural (UInt64.toNat_lt b)] at alike
        exact ⟨same, alike⟩
    | f32 =>
        rcases agrees_float (show floatF32.isNan nanCanon32 = true by decide) (by decide) (by decide)
          (BitVec.isLt a) (BitVec.isLt b) with ⟨same, alike⟩
        exact ⟨same.trans (sameFloat_iff floatF32 a b), alike⟩
    | f64 =>
        rcases agrees_float (show floatF64.isNan nanCanon64 = true by decide) (by decide) (by decide)
          (BitVec.isLt a) (BitVec.isLt b) with ⟨same, alike⟩
        exact ⟨same.trans (sameFloat_iff floatF64 a b), alike⟩
  cstr strings lhs rhs readL readR := by
    rcases eqCstr_eq readL readR with ⟨answer, same, iff⟩
    exact ⟨answer, same, iff, hashCstr_eq⟩
  combine a inside := injOn_hashCombine inside

end TerseDsa
