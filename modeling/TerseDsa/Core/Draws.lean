import TerseDsa.Core.Rng
import TerseDsa.Foundation.Mixing
import Mathlib.Data.Finite.Prod

namespace TerseDsa

open Foundation Run

/-!
# The generator never degenerates

Seeding mixes four different words, and the mixer loses nothing.  The step of
the state loses nothing either, so only the zeroed state steps to it.  Every
kind of draw begins with a raw one, and a raw draw starts a zeroed generator
as seed 0 would.
-/

namespace Rng

variable {w : Nat} {self later : Rng} {state seed : BitVec 64}

/-! ## The other draws -/

/-- The arithmetic of a floating type on the finite numbers it holds; a difference
may be too large for it. -/
structure FloatArith where
  sub : Rat -> Rat -> Option Rat
  mul : Rat -> Rat -> Rat
  add : Rat -> Rat -> Rat
  nextafter : Rat -> Rat -> Rat

/-- `tda_rng_f32`: the 24 bits are a multiple of 2^-24, so the scaling is exact. -/
def f32 : Run Rng Rat := do
  let word ← draw nextU32
  return mkRat (word >>> 8).toNat (2 ^ 24)

/-- `tda_rng_f64`. -/
def f64 : Run Rng Rat := do
  let word ← draw nextU64
  return mkRat (word >>> 11).toNat (2 ^ 53)

/-- The code that `tda_rng_f32_range` and `tda_rng_f64_range` share. -/
def floatRange (arith : FloatArith) (unit : Run Rng Rat) (lo hi : Rat) : Run Rng Rat := do
  require (lo ≤ hi)
  let width ← demand (arith.sub hi lo)
  let scaled ← unit
  let val := arith.add lo (arith.mul width scaled)
  return if val < hi then val else arith.nextafter hi lo

/-- `tda_rng_f32_range`. -/
def f32Range (arith : FloatArith) (lo hi : Rat) : Run Rng Rat := floatRange arith f32 lo hi

/-- `tda_rng_f64_range`. -/
def f64Range (arith : FloatArith) (lo hi : Rat) : Run Rng Rat := floatRange arith f64 lo hi

/-- `tda_rng_bool`. -/
def bool : Run Rng Bool := do
  let word ← draw nextU64
  return decide (word >>> 63 ≠ 0)

/-- A draw of any kind, with what it is asked for. -/
inductive Draw where
  | u32
  | u64
  | u32Max (max : BitVec 32)
  | u64Max (max : BitVec 64)
  | idx (len : Nat)
  | i32Range (lo hi : BitVec 32)
  | i64Range (lo hi : BitVec 64)
  | f32
  | f64
  | f32Range (lo hi : Rat)
  | f64Range (lo hi : Rat)
  | bool

/-- What a draw returns. -/
inductive Drawn where
  | word32 (val : BitVec 32)
  | word64 (val : BitVec 64)
  | place (idx : Nat)
  | float (val : Rat)
  | bool (val : Bool)
  deriving DecidableEq

/-- The function that makes the draw; `bound` is how many raw draws it may reject. -/
def Draw.run (single double : FloatArith) (bound : Nat) : Draw -> Run Rng Drawn
  | .u32 => do return .word32 (← draw nextU32)
  | .u64 => do return .word64 (← draw nextU64)
  | .u32Max max => do return .word32 (← Rng.u32Max bound max)
  | .u64Max max => do return .word64 (← Rng.u64Max bound max)
  | .idx len => do return .place (← Rng.idx bound len)
  | .i32Range lo hi => do return .word32 (← Rng.i32Range bound lo hi)
  | .i64Range lo hi => do return .word64 (← Rng.i64Range bound lo hi)
  | .f32 => do return .float (← Rng.f32)
  | .f64 => do return .float (← Rng.f64)
  | .f32Range lo hi => do return .float (← Rng.f32Range single lo hi)
  | .f64Range lo hi => do return .float (← Rng.f64Range double lo hi)
  | .bool => do return .bool (← Rng.bool)

/-- Draws one after the other. -/
def drawAll (single double : FloatArith) (bound : Nat) : List Draw -> Run Rng (List Drawn)
  | [] => pure []
  | first :: rest => do
      let val ← first.run single double bound
      let vals ← drawAll single double bound rest
      return val :: vals

/-! ## Seeding -/

/-- The words of the state, in their order. -/
def words (self : Rng) : List (BitVec 64) := [self.s0, self.s1, self.s2, self.s3]

/-- `= {0}`. -/
def zeroed : Rng := ⟨0, 0, 0, 0⟩

/-- What `splitmix64` makes of its state. -/
def splitmixed (state : BitVec 64) : BitVec 64 := (splitmix64 (state - splitmixGamma)).1

theorem splitmix64_eq : splitmix64 state = (splitmixed (state + splitmixGamma), state + splitmixGamma) := by
  unfold splitmixed
  rw [BitVec.add_sub_cancel]
  rfl

theorem splitmixed_injective : Function.Injective splitmixed := by
  have first : Function.Injective fun word : BitVec 64 => word ^^^ (word >>> 30) := xorShiftRight_injective (by decide)
  have second : Function.Injective fun word : BitVec 64 => word ^^^ (word >>> 27) := xorShiftRight_injective (by decide)
  have third : Function.Injective fun word : BitVec 64 => word ^^^ (word >>> 31) := xorShiftRight_injective (by decide)
  have times := mulWord_injective (show splitmixC1 * 0x96de1b173f119089#64 = 1 by decide)
  have again := mulWord_injective (show splitmixC2 * 0x319642b2d24d8ec3#64 = 1 by decide)
  have whole := third.comp (again.comp (second.comp (times.comp first)))
  intro one other same
  apply whole
  unfold splitmixed splitmix64 at same
  dsimp only at same
  rwa [BitVec.sub_add_cancel, BitVec.sub_add_cancel] at same

/-- How far the four states that are mixed are from the seed. -/
def strides : List (BitVec 64) :=
  [splitmixGamma, splitmixGamma + splitmixGamma, splitmixGamma + (splitmixGamma + splitmixGamma),
    splitmixGamma + (splitmixGamma + (splitmixGamma + splitmixGamma))]

theorem words_fromSeed (seed : BitVec 64) :
    (fromSeed seed).words = (strides.map (seed + ·)).map splitmixed := by
  simp only [words, fromSeed, splitmix64_eq, strides, List.map_cons, List.map_nil, BitVec.add_assoc]

theorem fromSeed_nodup (seed : BitVec 64) : (fromSeed seed).words.Nodup := by
  have apart : Function.Injective fun stride : BitVec 64 => seed + stride :=
    fun _ _ same => (BitVec.add_right_inj seed).mp same
  have different : strides.Nodup := by decide
  rw [words_fromSeed]
  exact (different.map apart).map splitmixed_injective

theorem fromSeed_ne_zeroed (seed : BitVec 64) : fromSeed seed ≠ zeroed := by
  intro zero
  have apart := fromSeed_nodup seed
  rw [zero] at apart
  exact absurd apart (by decide)

/-! ## The step -/

/-- What `next_u64` does to a state that is not zeroed. -/
def xoshiro (self : Rng) : Rng :=
  let tmp := self.s1 <<< 17
  let s2 := self.s2 ^^^ self.s0
  let s3 := self.s3 ^^^ self.s1
  let s1 := self.s1 ^^^ s2
  let s0 := self.s0 ^^^ s3
  let s2 := s2 ^^^ tmp
  ⟨s0, s1, s2, rotl64 s3 45⟩

/-- The state that a raw draw steps from. -/
def started (self : Rng) : Rng := if self = zeroed then fromSeed 0 else self

theorem rotl64_injective {count : Nat} (inside : count < 64) : Function.Injective fun val => rotl64 val count := by
  have same : (fun val => rotl64 val count) = fun val => BitVec.rotateLeft val count := by
    funext val
    exact (BitVec.rotateLeft_eq_rotateLeftAux_of_lt inside).symm
  rw [same]
  exact rotateLeft_injective inside

/-- The words are told apart one after the other, the last one updated first. -/
theorem xoshiro_injective : Function.Injective xoshiro := by
  intro self other same
  cases self with
  | mk a0 a1 a2 a3 =>
  cases other with
  | mk b0 b1 b2 b3 =>
  simp only [xoshiro, Rng.mk.injEq] at same
  rcases same with ⟨zeroth, first, second, third⟩
  have tops : a3 ^^^ a1 = b3 ^^^ b1 := rotl64_injective (by decide) third
  have same0 : a0 = b0 := by
    rw [tops] at zeroth
    exact (BitVec.xor_left_inj _).mp zeroth
  have same1 : a1 = b1 := by
    -- the second word updated holds `s2 ^ s0` as the first one does, so their sum is without it
    apply xorShiftLeft_injective (show 0 < 17 by decide)
    have sum := congrArg₂ (· ^^^ ·) first second
    simp only [BitVec.xor_assoc] at sum
    have cancel : forall x m y : BitVec 64, x ^^^ (m ^^^ (m ^^^ y)) = x ^^^ y := by
      intro x m y
      rw [← BitVec.xor_assoc m, BitVec.xor_self, BitVec.zero_xor]
    simp only [← BitVec.xor_assoc a2, ← BitVec.xor_assoc b2, cancel] at sum
    exact sum
  subst same0 same1
  have same2 : a2 = b2 := (BitVec.xor_left_inj a0).mp ((BitVec.xor_right_inj a1).mp first)
  have same3 : a3 = b3 := (BitVec.xor_left_inj a1).mp tops
  rw [same2, same3]

instance : Finite Rng := by
  apply Finite.of_injective fun self : Rng => (self.s0.toFin, self.s1.toFin, self.s2.toFin, self.s3.toFin)
  intro self other same
  cases self
  cases other
  simpa only [Prod.mk.injEq, BitVec.toFin_inj, Rng.mk.injEq] using same

theorem xoshiro_bijective : Function.Bijective xoshiro := Finite.injective_iff_bijective.mp xoshiro_injective

theorem xoshiro_eq_zeroed : xoshiro self = zeroed <-> self = zeroed := by
  have still : xoshiro zeroed = zeroed := by decide
  constructor
  · intro zero
    exact xoshiro_injective (zero.trans still.symm)
  · rintro rfl
    exact still

theorem nextU64_later : (nextU64 self).2 = xoshiro (started self) := by
  have test : self.s0 ||| self.s1 ||| self.s2 ||| self.s3 = 0 <-> self = zeroed := by
    cases self
    simp only [zeroed, Rng.mk.injEq, BitVec.ofNat_eq_ofNat, BitVec.or_eq_zero_iff, and_assoc]
  unfold nextU64 started
  simp only [test]
  rfl

theorem started_ne_zeroed : started self ≠ zeroed := by
  unfold started
  split
  · exact fromSeed_ne_zeroed 0
  · assumption

theorem nextU64_ne_zeroed : (nextU64 self).2 ≠ zeroed := by
  rw [nextU64_later]
  exact fun zero => started_ne_zeroed (xoshiro_eq_zeroed.mp zero)

/-- However many raw draws are taken, as those are that a bounded draw rejects. -/
theorem iterate_ne_zeroed (start : self ≠ zeroed) (count : Nat) : (fun self => (nextU64 self).2)^[count] self ≠ zeroed := by
  cases count with
  | zero => exact start
  | succ count =>
      rw [Function.iterate_succ_apply']
      exact nextU64_ne_zeroed

/-- A zeroed generator steps as seed 0 does. -/
theorem nextU64_zeroed : nextU64 zeroed = nextU64 (fromSeed 0) := by decide

theorem nextU32_zeroed : nextU32 zeroed = nextU32 (fromSeed 0) := by
  unfold nextU32
  rw [nextU64_zeroed]

/-! ## No draw zeroes the generator -/

section Keeping

variable {next : Rng -> BitVec w × Rng} {single double : FloatArith} {bound : Nat}

/-- The state is not zeroed. -/
abbrev Alive (self : Rng) : Prop := self ≠ zeroed

theorem keeps_draw (keeps : forall self, (next self).2 ≠ zeroed) : Run.Keeps Alive (draw next) := by
  intro self _
  simp only [draw, allows_bind, Run.allows_get]
  exact (allows_modify (fun _ => (next self).2) self _).mpr ((allows_pure _ _ _).mpr (keeps self))

theorem keeps_u64 : Run.Keeps Alive (draw nextU64) := keeps_draw fun _ => nextU64_ne_zeroed

theorem keeps_u32 : Run.Keeps Alive (draw nextU32) := keeps_draw fun _ => nextU64_ne_zeroed

theorem keeps_drawMax (keeps : Run.Keeps Alive (draw next)) (max : BitVec w) :
    Run.Keeps Alive (drawMax next bound max) := by
  have round : forall wide, Run.Keeps Alive (reject next (max + 1) wide) := fun wide =>
    Run.Keeps.ite (keeps.bind fun _ => Run.Keeps.of_pure _) (Run.Keeps.of_pure _)
  refine Run.Keeps.ite keeps (keeps.bind fun drawn => ?_)
  exact Run.Keeps.ite ((Run.Keeps.loop round (bound + 1) _).bind fun _ => Run.Keeps.of_pure _)
    ((Run.Keeps.of_pure _).bind fun _ => Run.Keeps.of_pure _)

theorem keeps_floatRange {arith : FloatArith} {unit : Run Rng Rat} (keeps : Run.Keeps Alive unit) (lo hi : Rat) :
    Run.Keeps Alive (floatRange arith unit lo hi) :=
  (Run.Keeps.of_require _).bind fun _ => (Run.Keeps.of_demand _).bind fun _ =>
    keeps.bind fun _ => Run.Keeps.of_pure _

theorem keeps_f32 : Run.Keeps Alive f32 := keeps_u32.bind fun _ => Run.Keeps.of_pure _

theorem keeps_f64 : Run.Keeps Alive f64 := keeps_u64.bind fun _ => Run.Keeps.of_pure _

theorem keeps_run (kind : Draw) : Run.Keeps Alive (kind.run single double bound) := by
  have small : forall max, Run.Keeps Alive (drawMax nextU32 bound max) := fun max => keeps_drawMax keeps_u32 max
  have large : forall max, Run.Keeps Alive (drawMax nextU64 bound max) := fun max => keeps_drawMax keeps_u64 max
  cases kind with
  | u32 => exact keeps_u32.bind fun _ => Run.Keeps.of_pure _
  | u64 => exact keeps_u64.bind fun _ => Run.Keeps.of_pure _
  | u32Max max => exact (small max).bind fun _ => Run.Keeps.of_pure _
  | u64Max max => exact (large max).bind fun _ => Run.Keeps.of_pure _
  | idx len =>
      exact ((Run.Keeps.of_require _).bind fun _ => (large _).bind fun _ => Run.Keeps.of_pure _).bind fun _ =>
        Run.Keeps.of_pure _
  | i32Range lo hi =>
      exact ((Run.Keeps.of_require _).bind fun _ => (small _).bind fun _ => Run.Keeps.of_pure _).bind fun _ =>
        Run.Keeps.of_pure _
  | i64Range lo hi =>
      exact ((Run.Keeps.of_require _).bind fun _ => (large _).bind fun _ => Run.Keeps.of_pure _).bind fun _ =>
        Run.Keeps.of_pure _
  | f32 => exact keeps_f32.bind fun _ => Run.Keeps.of_pure _
  | f64 => exact keeps_f64.bind fun _ => Run.Keeps.of_pure _
  | f32Range lo hi => exact (keeps_floatRange keeps_f32 lo hi).bind fun _ => Run.Keeps.of_pure _
  | f64Range lo hi => exact (keeps_floatRange keeps_f64 lo hi).bind fun _ => Run.Keeps.of_pure _
  | bool => exact (keeps_u64.bind fun _ => Run.Keeps.of_pure _).bind fun _ => Run.Keeps.of_pure _

theorem keeps_drawAll (kinds : List Draw) : Run.Keeps Alive (drawAll single double bound kinds) := by
  induction kinds with
  | nil => exact Run.Keeps.of_pure _
  | cons kind rest ih =>
      exact (keeps_run kind).bind fun _ => ih.bind fun _ => Run.Keeps.of_pure _

end Keeping

/-! ## A zeroed generator draws as seed 0 does -/

section Zeroed

variable {β γ : Type} {run : Run Rng β} {then_ : β -> Run Rng γ} {single double : FloatArith} {bound : Nat}

/-- From a zeroed generator the run goes as it goes from seed 0. -/
def AsSeeded (run : Run Rng β) : Prop := run zeroed = run (fromSeed 0)

theorem AsSeeded.bind (first : AsSeeded run) : AsSeeded (run >>= then_) := by
  change (run zeroed).bind _ = (run (fromSeed 0)).bind _
  rw [first]

/-- What is checked or computed before the first draw does not look at the state. -/
theorem AsSeeded.after {before : Option β} (rest : forall val, AsSeeded (then_ val)) :
    AsSeeded (demand before >>= then_) := by
  cases before with
  | none => rfl
  | some val => exact rest val

theorem AsSeeded.checked {cond : Prop} [Decidable cond] (rest : AsSeeded run) :
    AsSeeded (require cond >>= fun _ => run) := by
  by_cases holds : cond
  · rw [Run.require_of holds]
    exact rest
  · unfold require
    rw [if_neg holds]
    rfl

theorem asSeeded_draw {next : Rng -> BitVec w × Rng} (same : next zeroed = next (fromSeed 0)) :
    AsSeeded (draw next) := by
  change some ((next zeroed).1, (next zeroed).2) = some ((next (fromSeed 0)).1, (next (fromSeed 0)).2)
  rw [same]

theorem asSeeded_u32 : AsSeeded (draw nextU32) := asSeeded_draw nextU32_zeroed

theorem asSeeded_u64 : AsSeeded (draw nextU64) := asSeeded_draw nextU64_zeroed

theorem asSeeded_drawMax {next : Rng -> BitVec w × Rng} (first : AsSeeded (draw next)) (max : BitVec w) :
    AsSeeded (drawMax next bound max) := by
  unfold drawMax
  split
  · exact first
  · exact first.bind

theorem asSeeded_run (kind : Draw) : AsSeeded (kind.run single double bound) := by
  cases kind with
  | u32 => exact asSeeded_u32.bind
  | u64 => exact asSeeded_u64.bind
  | u32Max max => exact (asSeeded_drawMax asSeeded_u32 max).bind
  | u64Max max => exact (asSeeded_drawMax asSeeded_u64 max).bind
  | idx len => exact (AsSeeded.checked (asSeeded_drawMax asSeeded_u64 _).bind).bind
  | i32Range lo hi => exact (AsSeeded.checked (asSeeded_drawMax asSeeded_u32 _).bind).bind
  | i64Range lo hi => exact (AsSeeded.checked (asSeeded_drawMax asSeeded_u64 _).bind).bind
  | f32 => exact asSeeded_u32.bind.bind
  | f64 => exact asSeeded_u64.bind.bind
  | f32Range lo hi => exact (AsSeeded.checked (AsSeeded.after fun _ => asSeeded_u32.bind.bind)).bind
  | f64Range lo hi => exact (AsSeeded.checked (AsSeeded.after fun _ => asSeeded_u64.bind.bind)).bind
  | bool => exact asSeeded_u64.bind.bind

end Zeroed

/-! ## The results -/

/-- Seeding gives four different words; the step is a bijection that takes only the
zeroed state to it, and is what a raw draw does to any other; no raw draws and no draws
of any kind come to the zeroed state from another one; and what is drawn from a zeroed
generator is what is drawn from seed 0. -/
theorem never_degenerates :
    (forall seed, (fromSeed seed).words.Nodup ∧ fromSeed seed ≠ zeroed) ∧
      Function.Bijective xoshiro ∧
      (forall self, xoshiro self = zeroed <-> self = zeroed) ∧
      (forall self, self ≠ zeroed -> (nextU64 self).2 = xoshiro self) ∧
      (forall self, self ≠ zeroed -> forall count, (fun self => (nextU64 self).2)^[count] self ≠ zeroed) ∧
      (forall single double bound kinds self later vals, self ≠ zeroed ->
        drawAll single double bound kinds self = some (vals, later) -> later ≠ zeroed) ∧
      (forall single double bound kind rest,
        drawAll single double bound (kind :: rest) zeroed = drawAll single double bound (kind :: rest) (fromSeed 0)) := by
  refine ⟨fun seed => ⟨fromSeed_nodup seed, fromSeed_ne_zeroed seed⟩, xoshiro_bijective, fun _ => xoshiro_eq_zeroed,
    ?_, fun _ start => iterate_ne_zeroed start, ?_, ?_⟩
  · intro self start
    rw [nextU64_later, started, if_neg start]
  · intro single double bound kinds self later vals start drawn
    exact keeps_drawAll kinds self start vals later drawn
  · intro single double bound kind rest
    exact (asSeeded_run kind).bind

end Rng
end TerseDsa
