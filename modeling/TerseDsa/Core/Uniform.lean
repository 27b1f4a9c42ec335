import TerseDsa.Core.Rng

namespace TerseDsa

open Foundation Run

/-!
# Bounded draws are uniform

What one raw draw comes to is a function of the draw alone, and each value in
the range is what equally many raw draws come to.  A bounded draw takes raw
draws until one comes to something.
-/

namespace Rng

variable {w bound len : Nat} {max x range value : BitVec w} {next : Rng -> BitVec w × Rng} {self : Rng}

/-! ## One raw draw -/

/-- The loop's test: the bottom half of the product detects the overrepresented slot. -/
def Rejects (max x : BitVec w) : Prop := low (product x (max + 1)) < threshold (max + 1)

instance (max x : BitVec w) : Decidable (Rejects max x) := inferInstanceAs (Decidable (_ < _))

/-- What a raw draw comes to; nothing if it is rejected. -/
def taken (max x : BitVec w) : Option (BitVec w) :=
  if max = BitVec.allOnes w then
    some x
  else if Rejects max x then
    none
  else
    some ((product x (max + 1) >>> w).setWidth w)

theorem toNat_lt_of_ne (notAll : max ≠ BitVec.allOnes w) : max.toNat + 1 < 2 ^ w := by
  by_contra all
  apply notAll
  apply BitVec.eq_of_toNat_eq
  have below := max.isLt
  rw [BitVec.toNat_allOnes]
  omega

theorem toNat_range (notAll : max ≠ BitVec.allOnes w) : (max + 1).toNat = max.toNat + 1 := by
  have fits := toNat_lt_of_ne notAll
  have one : (1 : BitVec w).toNat = 1 := Nat.mod_eq_of_lt (Nat.lt_of_le_of_lt (Nat.le_add_left 1 _) fits)
  rw [BitVec.toNat_add, one, Nat.mod_eq_of_lt fits]

theorem toNat_product : (product x range).toNat = x.toNat * range.toNat := by
  have fits : x.toNat * range.toNat < 2 ^ (2 * w) := by
    rw [Nat.two_mul, Nat.pow_add]
    exact Nat.mul_lt_mul'' x.isLt range.isLt
  have wider : w ≤ 2 * w := by omega
  rw [product, BitVec.toNat_mul, BitVec.toNat_setWidth_of_le wider, BitVec.toNat_setWidth_of_le wider,
    Nat.mod_eq_of_lt fits]

theorem toNat_low : (low (product x range)).toNat = x.toNat * range.toNat % 2 ^ w := by
  rw [low, BitVec.toNat_setWidth, toNat_product]

/-- Negating the range before the division leaves `2 ^ w` as the number divided. -/
theorem toNat_threshold (some_ : 0 < range.toNat) : (threshold range).toNat = 2 ^ w % range.toNat := by
  have le : range.toNat ≤ 2 ^ w := Nat.le_of_lt range.isLt
  have small : 2 ^ w - range.toNat < 2 ^ w := by omega
  rw [threshold, BitVec.toNat_umod, BitVec.toNat_neg, Nat.mod_eq_of_lt small, ← Nat.mod_eq_sub_mod le]

theorem toNat_scaled (notAll : max ≠ BitVec.allOnes w) :
    ((product x (max + 1) >>> w).setWidth w).toNat = Rejection.scaled (2 ^ w) (max.toNat + 1) x.toNat := by
  have below := Rejection.scaled_lt x.isLt (Nat.succ_pos max.toNat)
  have fits := toNat_lt_of_ne notAll
  rw [BitVec.toNat_setWidth, BitVec.toNat_ushiftRight, toNat_product, toNat_range notAll, Nat.shiftRight_eq_div_pow]
  exact Nat.mod_eq_of_lt (Nat.lt_trans below fits)

/-- The verdict, in whole numbers. -/
theorem rejects_iff (notAll : max ≠ BitVec.allOnes w) :
    Rejects max x <-> ¬ Rejection.Accepts (2 ^ w) (max.toNat + 1) x.toNat := by
  unfold Rejects Rejection.Accepts
  rw [BitVec.lt_def, toNat_low, toNat_threshold (by rw [toNat_range notAll]; exact Nat.succ_pos _),
    toNat_range notAll, Nat.not_le]

/-- Only a product whose bottom half is below the range can be rejected. -/
theorem Rejects.early (notAll : max ≠ BitVec.allOnes w) (rejects : Rejects max x) :
    low (product x (max + 1)) < max + 1 := by
  have some_ : 0 < (max + 1).toNat := by
    rw [toNat_range notAll]
    exact Nat.succ_pos _
  refine BitVec.lt_trans rejects ?_
  rw [BitVec.lt_def, toNat_threshold some_]
  exact Nat.mod_lt _ some_

theorem taken_le (took : taken max x = some value) : value ≤ max := by
  unfold taken at took
  by_cases all : max = BitVec.allOnes w
  · have below := value.isLt
    rw [all, BitVec.le_def, BitVec.toNat_allOnes]
    omega
  · rw [if_neg all] at took
    split at took
    · cases took
    · cases took
      rw [BitVec.le_def, toNat_scaled all]
      exact Nat.le_of_lt_succ (Rejection.scaled_lt x.isLt (Nat.succ_pos _))

/-- Raw draws are counted as the numbers they are. -/
theorem ncard_toNat (test : BitVec w -> Prop) :
    {x | test x}.ncard = {number | exists x : BitVec w, x.toNat = number ∧ test x}.ncard := by
  have image : {number | exists x : BitVec w, x.toNat = number ∧ test x} = BitVec.toNat '' {x | test x} := by
    ext number
    constructor
    · rintro ⟨x, same, holds⟩
      exact ⟨x, holds, same⟩
    · rintro ⟨x, holds, same⟩
      exact ⟨x, same, holds⟩
  rw [image, Set.ncard_image_of_injective _ fun _ _ same => BitVec.eq_of_toNat_eq same]

/-- Each value in the range is what equally many raw draws come to. -/
theorem ncard_taken (inRange : value ≤ max) : {x | taken max x = some value}.ncard = 2 ^ w / (max.toNat + 1) := by
  by_cases all : max = BitVec.allOnes w
  · have own : {x | taken max x = some value} = {value} := by
      ext x
      simp only [taken, if_pos all, Set.mem_ofPred_eq, Option.some.injEq, Set.mem_singleton_iff]
    have positive := Nat.two_pow_pos w
    rw [own, Set.ncard_singleton, all, BitVec.toNat_allOnes, Nat.sub_add_cancel positive, Nat.div_self positive]
  · have fits := toNat_lt_of_ne all
    rw [BitVec.le_def] at inRange
    rw [← Rejection.ncard_accepts_scaled (Nat.lt_succ_of_le inRange) (Nat.le_of_lt fits), ncard_toNat]
    congr 1
    ext number
    simp only [Set.mem_ofPred_eq]
    constructor
    · rintro ⟨x, rfl, took⟩
      simp only [taken, if_neg all] at took
      split at took
      · cases took
      · rename_i stays
        rw [rejects_iff all, not_not] at stays
        rw [← Option.some.inj took, toNat_scaled all]
        exact ⟨x.isLt, stays, rfl⟩
    · rintro ⟨below, accepts, same⟩
      have whole : (BitVec.ofNat w number).toNat = number := by
        rw [BitVec.toNat_ofNat, Nat.mod_eq_of_lt below]
      have stays : ¬ Rejects max (BitVec.ofNat w number) := by
        rw [rejects_iff all, not_not, whole]
        exact accepts
      refine ⟨BitVec.ofNat w number, whole, ?_⟩
      rw [taken, if_neg all, if_neg stays, Option.some.injEq]
      apply BitVec.eq_of_toNat_eq
      rw [toNat_scaled all, whole, same]

/-! ## Runs -/

/-- The generator after so many raw draws. -/
def after (next : Rng -> BitVec w × Rng) (count : Nat) (self : Rng) : Rng := (fun rng => (next rng).2)^[count] self

/-- The raw draw behind so many others. -/
def raw (next : Rng -> BitVec w × Rng) (count : Nat) (self : Rng) : BitVec w := (next (after next count self)).1

/-- The first raw draw that is taken, with at most `bound` before it. -/
def Takes (next : Rng -> BitVec w × Rng) (bound : Nat) (max : BitVec w) (self : Rng)
    (post : BitVec w -> Rng -> Prop) : Prop :=
  exists count, count ≤ bound ∧ (forall i, i < count -> taken max (raw next i self) = none) ∧
    exists value, taken max (raw next count self) = some value ∧ post value (after next (count + 1) self)

theorem takes_of_some {post : BitVec w -> Rng -> Prop} (took : taken max (next self).1 = some value) :
    Takes next bound max self post <-> post value (next self).2 := by
  constructor
  · rintro ⟨count, _, rejected, other, tookOther, holds⟩
    cases count with
    | zero =>
        have same : taken max (next self).1 = some other := tookOther
        rw [took] at same
        cases same
        exact holds
    | succ count =>
        have first : taken max (next self).1 = none := rejected 0 (Nat.succ_pos _)
        rw [took] at first
        cases first
  · exact fun holds => ⟨0, Nat.zero_le _, fun i below => absurd below (Nat.not_lt_zero _), value, took, holds⟩

theorem takes_of_none {post : BitVec w -> Rng -> Prop} (rejected : taken max (next self).1 = none) :
    Takes next (bound + 1) max self post <-> Takes next bound max (next self).2 post := by
  constructor
  · rintro ⟨count, few, others, value, took, holds⟩
    cases count with
    | zero =>
        have first : taken max (next self).1 = some value := took
        rw [rejected] at first
        cases first
    | succ count =>
        exact ⟨count, Nat.le_of_succ_le_succ few, fun i below => others (i + 1) (Nat.succ_lt_succ below), value, took,
          holds⟩
  · rintro ⟨count, few, others, value, took, holds⟩
    refine ⟨count + 1, Nat.succ_le_succ few, fun i below => ?_, value, took, holds⟩
    cases i with
    | zero => exact rejected
    | succ i => exact others i (Nat.lt_of_succ_lt_succ below)

theorem ends_draw {post : BitVec w -> Rng -> Prop} :
    Ends (draw next) self post <-> post (next self).1 (next self).2 := by
  simp only [draw, ends_bind, Run.ends_get, Run.ends_set, ends_pure]

/-- A draw that is not rejected leaves the loop. -/
theorem ends_loop_stays (stays : ¬ Rejects max x) {post : BitVec (2 * w) -> Rng -> Prop} :
    Ends (loop (reject next (max + 1)) (bound + 1) (product x (max + 1))) self post <->
      post (product x (max + 1)) self := by
  have test : ¬ low (product x (max + 1)) < threshold (max + 1) := stays
  simp only [loop, reject, if_neg test, ends_bind, ends_pure]

/-- A draw that is rejected is replaced by the next one. -/
theorem ends_loop_rejects (rejects : Rejects max x) {post : BitVec (2 * w) -> Rng -> Prop} :
    Ends (loop (reject next (max + 1)) (bound + 1) (product x (max + 1))) self post <->
      Ends (loop (reject next (max + 1)) bound (product (next self).1 (max + 1))) (next self).2 post := by
  have test : low (product x (max + 1)) < threshold (max + 1) := rejects
  simp only [loop, reject, if_pos test, ends_bind, ends_draw, ends_pure]

theorem taken_of_stays (notAll : max ≠ BitVec.allOnes w) (stays : ¬ Rejects max x) :
    taken max x = some ((product x (max + 1) >>> w).setWidth w) := by
  rw [taken, if_neg notAll, if_neg stays]

theorem taken_of_rejects (notAll : max ≠ BitVec.allOnes w) (rejects : Rejects max x) : taken max x = none := by
  rw [taken, if_neg notAll, if_pos rejects]

/-- The loop goes on from a raw draw until one is taken. -/
theorem ends_rounds (notAll : max ≠ BitVec.allOnes w) {post : BitVec w -> Rng -> Prop} :
    Ends (loop (reject next (max + 1)) (bound + 1) (product (next self).1 (max + 1))) (next self).2
      (fun wide later => post ((wide >>> w).setWidth w) later) <-> Takes next bound max self post := by
  induction bound generalizing self with
  | zero =>
      by_cases rejects : Rejects max (next self).1
      · rw [ends_loop_rejects rejects, loop, ends_failure, false_iff]
        rintro ⟨count, none_, _, value, took, _⟩
        have first : count = 0 := Nat.le_zero.mp none_
        subst first
        have same : taken max (next self).1 = some value := took
        rw [taken_of_rejects notAll rejects] at same
        cases same
      · rw [ends_loop_stays rejects, takes_of_some (taken_of_stays notAll rejects)]
  | succ bound ih =>
      by_cases rejects : Rejects max (next self).1
      · rw [ends_loop_rejects rejects, takes_of_none (taken_of_rejects notAll rejects)]
        exact ih
      · rw [ends_loop_stays rejects, takes_of_some (taken_of_stays notAll rejects)]

/-- A bounded draw ends where a raw draw is taken, and with what that one comes to. -/
theorem ends_drawMax {post : BitVec w -> Rng -> Prop} :
    Ends (drawMax next bound max) self post <-> Takes next bound max self post := by
  by_cases all : max = BitVec.allOnes w
  · have took : taken max (next self).1 = some (next self).1 := if_pos all
    rw [takes_of_some took, drawMax, if_pos all, ends_draw]
  · simp only [drawMax, if_neg all, ends_bind, ends_draw, ends_ite, ends_pure, ends_rounds all]
    by_cases early : low (product (next self).1 (max + 1)) < max + 1
    · simp only [early, true_implies, not_true_eq_false, false_implies, and_true]
    · have stays : ¬ Rejects max (next self).1 := fun rejects => early (rejects.early all)
      simp only [early, false_implies, not_false_eq_true, true_implies, true_and,
        takes_of_some (taken_of_stays all stays)]

theorem Takes.exists_taken {post : BitVec w -> Rng -> Prop} (takes : Takes next bound max self post) :
    exists x value later, taken max x = some value ∧ post value later := by
  rcases takes with ⟨count, _, _, value, took, holds⟩
  exact ⟨raw next count self, value, _, took, holds⟩

/-! ## Signed ranges -/

section Signed

variable {lo hi : BitVec w}

/-- The difference of two signed numbers in order fits the unsigned type. -/
theorem toNat_width (le : lo.toInt ≤ hi.toInt) : ((hi - lo).toNat : Int) = hi.toInt - lo.toInt := by
  have loBelow := lo.isLt
  have hiBelow := hi.isLt
  rw [BitVec.toInt_eq_toNat_cond, BitVec.toInt_eq_toNat_cond] at *
  rw [BitVec.toNat_sub]
  by_cases under : lo.toNat ≤ hi.toNat
  · have wrapped : 2 ^ w - lo.toNat + hi.toNat = (hi.toNat - lo.toNat) + 2 ^ w := by omega
    rw [wrapped, Nat.add_mod_right, Nat.mod_eq_of_lt (by omega)]
    split at le <;> split at le <;> omega
  · rw [Nat.mod_eq_of_lt (by omega)]
    split at le <;> split at le <;> omega

/-- Adding what is at most the width to the low end stays in the range. -/
theorem toInt_add_width (le : lo.toInt ≤ hi.toInt) (inWidth : value ≤ hi - lo) :
    lo.toInt ≤ (lo + value).toInt ∧ (lo + value).toInt ≤ hi.toInt := by
  have width := toNat_width le
  have loBelow := lo.isLt
  have hiBelow := hi.isLt
  have valueBelow := value.isLt
  rw [BitVec.le_def] at inWidth
  rw [BitVec.toInt_eq_toNat_cond lo, BitVec.toInt_eq_toNat_cond hi] at *
  rw [BitVec.toInt_eq_toNat_cond, BitVec.toNat_add]
  by_cases under : lo.toNat + value.toNat < 2 ^ w
  · rw [Nat.mod_eq_of_lt under]
    split at width <;> split at width <;> split <;> omega
  · have wraps : lo.toNat + value.toNat = (lo.toNat + value.toNat - 2 ^ w) + 2 ^ w := by omega
    rw [wraps, Nat.add_mod_right, Nat.mod_eq_of_lt (by omega)]
    split at width <;> split at width <;> split <;> omega

/-- Each value of a signed range is what equally many raw draws come to. -/
theorem ncard_taken_add (low : lo.toInt ≤ value.toInt) (high : value.toInt ≤ hi.toInt) :
    {x | (taken (hi - lo) x).map (lo + ·) = some value}.ncard = 2 ^ w / ((hi - lo).toNat + 1) := by
  have inWidth : value - lo ≤ hi - lo := by
    have width := toNat_width (Int.le_trans low high)
    have offset := toNat_width low
    rw [BitVec.le_def]
    omega
  rw [← ncard_taken inWidth]
  congr 1
  ext x
  simp only [Set.mem_ofPred_eq, Option.map_eq_some_iff]
  constructor
  · rintro ⟨drawn, took, rfl⟩
    rw [took, BitVec.add_comm, BitVec.add_sub_cancel]
  · intro took
    refine ⟨_, took, ?_⟩
    rw [BitVec.add_comm, BitVec.sub_add_cancel]

end Signed

/-! ## The draws of the source -/

/-- A bounded draw takes the first raw draw that is not rejected, and every
value in its range comes from equally many of them. -/
structure Uniform (next : Rng -> BitVec w × Rng) (drawMax : Nat -> BitVec w -> Run Rng (BitVec w)) : Prop where
  /-- The loop's test in whole numbers. -/
  verdict : forall max x : BitVec w, max ≠ BitVec.allOnes w ->
    (¬ low (product x (max + 1)) < threshold (max + 1) <->
      2 ^ w % (max.toNat + 1) ≤ x.toNat * (max.toNat + 1) % 2 ^ w)
  /-- What the loop would reject does not get past the test before it. -/
  early : forall max x : BitVec w, max ≠ BitVec.allOnes w ->
    (low (product x (max + 1)) < max + 1 ∧ low (product x (max + 1)) < threshold (max + 1) <->
      low (product x (max + 1)) < threshold (max + 1))
  whole : forall x : BitVec w, taken (BitVec.allOnes w) x = some x
  inRange : forall max x value : BitVec w, taken max x = some value -> value ≤ max
  even : forall max value : BitVec w, value ≤ max ->
    {x | taken max x = some value}.ncard = 2 ^ w / (max.toNat + 1)
  runs : forall (bound : Nat) (max : BitVec w) (self : Rng) (post : BitVec w -> Rng -> Prop),
    Ends (drawMax bound max) self post <-> Takes next bound max self post

/-- A draw from a signed range, likewise. -/
structure UniformRange (next : Rng -> BitVec w × Rng) (drawRange : Nat -> BitVec w -> BitVec w -> Run Rng (BitVec w)) :
    Prop where
  inRange : forall (bound : Nat) (lo hi : BitVec w) (self : Rng), lo.toInt ≤ hi.toInt ->
    Allows (drawRange bound lo hi) self fun value _ => lo.toInt ≤ value.toInt ∧ value.toInt ≤ hi.toInt
  even : forall lo hi value : BitVec w, lo.toInt ≤ value.toInt -> value.toInt ≤ hi.toInt ->
    {x | (taken (hi - lo) x).map (lo + ·) = some value}.ncard = 2 ^ w / ((hi - lo).toNat + 1)
  runs : forall (bound : Nat) (lo hi : BitVec w) (self : Rng) (post : BitVec w -> Rng -> Prop),
    lo.toInt ≤ hi.toInt -> (Ends (drawRange bound lo hi) self post <->
      Takes next bound (hi - lo) self fun value later => post (lo + value) later)

theorem uniform_drawMax (next : Rng -> BitVec w × Rng) : Uniform next (drawMax next) where
  verdict max x notAll := by
    have test := rejects_iff (x := x) notAll
    unfold Rejects Rejection.Accepts at test
    rw [test, not_not]
  early max x notAll := by
    constructor
    · exact And.right
    · exact fun rejects => ⟨Rejects.early notAll rejects, rejects⟩
  whole x := if_pos rfl
  inRange max x value := taken_le
  even max value := ncard_taken
  runs bound max self post := ends_drawMax

/-- A run that ends does so in one place. -/
theorem ends_of_eq {α : Type} {run : Run Rng α} {later : Rng} {result : α} (same : run self = some (result, later)) :
    Ends run self fun other there => other = result ∧ there = later :=
  ⟨result, later, same, rfl, rfl⟩

/-- The signed draws shift an unsigned one. -/
theorem uniformRange_of {drawRange : Nat -> BitVec w -> BitVec w -> Run Rng (BitVec w)}
    (shifts : forall bound (lo hi : BitVec w), drawRange bound lo hi = (do
      require (lo.toInt ≤ hi.toInt)
      return lo + (← drawMax next bound (hi - lo)))) : UniformRange next drawRange := by
  have runs : forall (bound : Nat) (lo hi : BitVec w) (self : Rng) (post : BitVec w -> Rng -> Prop),
      lo.toInt ≤ hi.toInt -> (Ends (drawRange bound lo hi) self post <->
        Takes next bound (hi - lo) self fun value later => post (lo + value) later) := by
    intro bound lo hi self post le
    simp only [shifts, ends_bind, ends_require, le, true_and, ends_drawMax, ends_pure]
  refine ⟨?_, fun lo hi value => ncard_taken_add, runs⟩
  intro bound lo hi self le result later same
  rcases ((runs bound lo hi self _ le).mp (ends_of_eq same)).exists_taken with ⟨x, value, _, took, shifted, _⟩
  rw [← shifted]
  exact toInt_add_width le (taken_le took)

theorem ends_idx (some_ : 0 < len) {post : Nat -> Rng -> Prop} :
    Ends (idx bound len) self post <->
      Takes nextU64 bound (BitVec.ofNat 64 (len - 1)) self fun value later => post value.toNat later := by
  simp only [idx, u64Max, ends_bind, ends_require, some_, true_and, ends_drawMax, ends_pure]

theorem allows_idx (some_ : 0 < len) : Allows (idx bound len) self fun i _ => i < len := by
  intro result later same
  rcases ((ends_idx some_).mp (ends_of_eq same)).exists_taken with ⟨x, value, _, took, rfl, _⟩
  have le := taken_le took
  rw [BitVec.le_def, BitVec.toNat_ofNat] at le
  have small := Nat.mod_le (len - 1) (2 ^ 64)
  omega

theorem draws_uniform : Uniform nextU32 u32Max ∧ Uniform nextU64 u64Max ∧
    (forall bound len, 0 < len -> forall self, Allows (idx bound len) self (fun i _ => i < len) ∧
      forall post : Nat -> Rng -> Prop, Ends (idx bound len) self post <->
        Takes nextU64 bound (BitVec.ofNat 64 (len - 1)) self fun value later => post value.toNat later) ∧
    UniformRange nextU32 i32Range ∧ UniformRange nextU64 i64Range :=
  ⟨uniform_drawMax nextU32, uniform_drawMax nextU64,
    fun _ _ some_ _ => ⟨allows_idx some_, fun _ => ends_idx some_⟩,
    uniformRange_of fun _ _ _ => rfl, uniformRange_of fun _ _ _ => rfl⟩

end Rng
end TerseDsa
