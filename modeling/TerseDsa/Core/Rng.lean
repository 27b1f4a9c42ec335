import TerseDsa.Foundation.Run
import TerseDsa.Foundation.Rejection
import TerseDsa.Core.Size
import Mathlib.Logic.Function.Iterate

namespace TerseDsa

open Foundation

/-!
# `core/rng`

The generator and its whole numbers.  A bounded draw rejects raw draws until
one of them is fair, so here it is given a bound on how many it may reject.
-/

/-- `tda_Rng`. -/
structure Rng where
  s0 : BitVec 64
  s1 : BitVec 64
  s2 : BitVec 64
  s3 : BitVec 64
deriving DecidableEq

namespace Rng

/-! ## Seeding -/

/-- `SPLITMIX_GAMMA`, `SPLITMIX_C1` and `SPLITMIX_C2`. -/
def splitmixGamma : BitVec 64 := 0x9e3779b97f4a7c15#64
def splitmixC1 : BitVec 64 := 0xbf58476d1ce4e5b9#64
def splitmixC2 : BitVec 64 := 0x94d049bb133111eb#64

/-- `splitmix64`: the word, and the state after it. -/
def splitmix64 (state : BitVec 64) : BitVec 64 × BitVec 64 :=
  let state := state + splitmixGamma
  let val := state
  let val := (val ^^^ (val >>> 30)) * splitmixC1
  let val := (val ^^^ (val >>> 27)) * splitmixC2
  (val ^^^ (val >>> 31), state)

/-- `tda_rng_from_seed`. -/
def fromSeed (seed : BitVec 64) : Rng :=
  let (s0, state) := splitmix64 seed
  let (s1, state) := splitmix64 state
  let (s2, state) := splitmix64 state
  let (s3, _) := splitmix64 state
  ⟨s0, s1, s2, s3⟩

/-! ## Raw draws -/

/-- `rotl64`. -/
def rotl64 (val : BitVec 64) (count : Nat) : BitVec 64 := (val <<< count) ||| (val >>> (64 - count))

/-- `next_u64`; the zeroed state starts as seed 0 would. -/
def nextU64 (self : Rng) : BitVec 64 × Rng :=
  let self := if self.s0 ||| self.s1 ||| self.s2 ||| self.s3 = 0 then fromSeed 0 else self
  let result := rotl64 (self.s0 + self.s3) 23 + self.s0
  let tmp := self.s1 <<< 17
  let s2 := self.s2 ^^^ self.s0
  let s3 := self.s3 ^^^ self.s1
  let s1 := self.s1 ^^^ s2
  let s0 := self.s0 ^^^ s3
  let s2 := s2 ^^^ tmp
  (result, ⟨s0, s1, s2, rotl64 s3 45⟩)

/-- `next_u32`: the top half of a draw. -/
def nextU32 (self : Rng) : BitVec 32 × Rng :=
  let (draw, later) := nextU64 self
  ((draw >>> 32).setWidth 32, later)

section Bounded

variable {w : Nat}

/-- Take a raw draw. -/
def draw (next : Rng -> BitVec w × Rng) : Run Rng (BitVec w) := do
  let self ← get
  set (next self).2
  return (next self).1

/-- `(uint64_t) x * range`, in twice the width. -/
def product (x range : BitVec w) : BitVec (2 * w) := x.setWidth (2 * w) * range.setWidth (2 * w)

/-- The bottom half of the product. -/
def low (wide : BitVec (2 * w)) : BitVec w := wide.setWidth w

/-- `(uint32_t) (-range) % range`. -/
def threshold (range : BitVec w) : BitVec w := -range % range

/-- One round of the loop that rejects. -/
def reject (next : Rng -> BitVec w × Rng) (range : BitVec w) (wide : BitVec (2 * w)) :
    Run Rng (Run.Round (BitVec (2 * w)) (BitVec (2 * w))) := do
  if low wide < threshold range then
    return .again (product (← draw next) range)
  else
    return .leave wide

/-- The code that `tda_rng_u32_max` and `tda_rng_u64_max` share, one width apart. -/
def drawMax (next : Rng -> BitVec w × Rng) (bound : Nat) (max : BitVec w) : Run Rng (BitVec w) := do
  if max = BitVec.allOnes w then
    -- range would overflow, and need not
    draw next
  else
    let range := max + 1
    let wide := product (← draw next) range
    let wide ← if low wide < range then
        Run.loop (reject next range) (bound + 1) wide
      else
        pure wide
    return (wide >>> w).setWidth w

end Bounded

/-! ## Bounded draws -/

/-- `tda_rng_u32_max`. -/
def u32Max (bound : Nat) (max : BitVec 32) : Run Rng (BitVec 32) := drawMax nextU32 bound max

/-- `tda_rng_u64_max`. -/
def u64Max (bound : Nat) (max : BitVec 64) : Run Rng (BitVec 64) := drawMax nextU64 bound max

/-- `tda_rng_idx`. -/
def idx (bound len : Nat) : Run Rng Nat := do
  Run.require (len > 0)
  let last ← u64Max bound (BitVec.ofNat 64 (len - 1))
  return last.toNat

/-- `tda_rng_i32_range`. -/
def i32Range (bound : Nat) (lo hi : BitVec 32) : Run Rng (BitVec 32) := do
  Run.require (lo.toInt ≤ hi.toInt)
  let width := hi - lo
  return lo + (← u32Max bound width)

/-- `tda_rng_i64_range`. -/
def i64Range (bound : Nat) (lo hi : BitVec 64) : Run Rng (BitVec 64) := do
  Run.require (lo.toInt ≤ hi.toInt)
  let width := hi - lo
  return lo + (← u64Max bound width)

end Rng
end TerseDsa
