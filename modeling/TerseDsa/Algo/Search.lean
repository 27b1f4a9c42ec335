import TerseDsa.Core.Spans

namespace TerseDsa

open Foundation Run

/-!
# Binary searches of `algo/search`

The bounds of a key, and the place where a predicate stops holding.  Whatever
the callback answers, what is found is a place of the span; if it says yes of
the elems in front and no of the others, it is the place between them.
-/

/-- The predicate answers as the test does, whatever its state. -/
def Pred.Answers {α C : Type} (pred : Pred α C) (test : α -> Bool) : Prop := forall elem ctx, (pred elem ctx).1 = test elem

namespace Span

variable {α β C : Type} {heap : SpanMem α} {span : Span} {elems : List α} {cmp : Cmp α C} {ctx : C} {key : α}

/-- `bound`; the elem is always on the left, so the key need not be one. -/
def bound (span : Span) (key : β) (cmp : α -> β -> C -> Int × C) (ctx : C) (upper : Bool) :
    Run (SpanMem α) (Nat × C) :=
  loop (fun (vars : Nat × Nat × C) => do
    let (lo, hi, ctx) := vars
    if lo < hi then
      let mid := lo + (hi - lo) / 2
      let elem ← get span mid
      let (order, ctx) := cmp elem key ctx
      let before : Bool := if upper then decide (order ≤ 0) else decide (order < 0)
      if before then
        return .again (mid + 1, hi, ctx)
      else
        return .again (lo, mid, ctx)
    else
      return .leave (lo, ctx))
    (span.len + 1) (0, span.len, ctx)

/-- `tda_span_lower_bound`. -/
def lowerBound (span : Span) (key : β) (cmp : α -> β -> C -> Int × C) (ctx : C) : Run (SpanMem α) (Nat × C) := do
  assertSpan span
  bound span key cmp ctx false

/-- `tda_span_upper_bound`. -/
def upperBound (span : Span) (key : β) (cmp : α -> β -> C -> Int × C) (ctx : C) : Run (SpanMem α) (Nat × C) := do
  assertSpan span
  bound span key cmp ctx true

/-- `tda_span_binary_search`; `out` is what `out_idx` points at. -/
def binarySearch (span : Span) (key : β) (cmp : α -> β -> C -> Int × C) (ctx : C) (out : Nat) :
    Run (SpanMem α) (Bool × Nat × C) := do
  assertSpan span
  let (pos, ctx) ← lowerBound span key cmp ctx
  if pos ≥ span.len then
    return (false, out, ctx)
  -- the elem at pos is not less than the key, so it is either equal or greater
  let elem ← get span pos
  let (order, ctx) := cmp elem key ctx
  if order = 0 then
    return (true, pos, ctx)
  return (false, out, ctx)

/-- `tda_Range`. -/
structure Range where
  lo : Nat
  hi : Nat
  deriving DecidableEq

/-- `tda_span_equal_range`. -/
def equalRange (span : Span) (key : β) (cmp : α -> β -> C -> Int × C) (ctx : C) : Run (SpanMem α) (Range × C) := do
  assertSpan span
  let (lo, ctx) ← lowerBound span key cmp ctx
  let tail ← sub span lo (span.len - lo)
  let (more, ctx) ← upperBound tail key cmp ctx
  return (⟨lo, lo + more⟩, ctx)

/-- `tda_span_partition_point`. -/
def partitionPoint (span : Span) (pred : Pred α C) (ctx : C) : Run (SpanMem α) (Nat × C) := do
  assertSpan span
  loop (fun (vars : Nat × Nat × C) => do
    let (lo, hi, ctx) := vars
    if lo < hi then
      let mid := lo + (hi - lo) / 2
      let elem ← get span mid
      let (passes, ctx) := pred elem ctx
      if passes then
        return .again (mid + 1, hi, ctx)
      else
        return .again (lo, mid, ctx)
    else
      return .leave (lo, ctx))
    (span.len + 1) (0, span.len, ctx)

/-! ## Halving -/

section Halving

variable {pred : Pred α C} {test : α -> Bool} {place cut : Nat}

/-- The test says yes of the elems before the place, and of no others. -/
def CutAt (test : α -> Bool) (elems : List α) (place : Nat) : Prop :=
  place ≤ elems.length ∧ forall k (inside : k < elems.length), test elems[k] = true <-> k < place

theorem CutAt.mem_take (cutAt : CutAt test elems cut) {elem : α} (member : elem ∈ elems.take cut) : test elem = true := by
  rcases List.getElem_of_mem member with ⟨k, below, rfl⟩
  rw [List.length_take] at below
  rw [List.getElem_take]
  exact (cutAt.2 k (by omega)).mpr (by omega)

theorem CutAt.mem_drop (cutAt : CutAt test elems cut) {elem : α} (member : elem ∈ elems.drop cut) :
    test elem = false := by
  rcases List.getElem_of_mem member with ⟨k, below, rfl⟩
  rw [List.length_drop] at below
  rw [List.getElem_drop]
  exact Bool.eq_false_iff.mpr fun yes => absurd ((cutAt.2 (cut + k) (by omega)).mp yes) (by omega)

/-- A test that is never true behind an elem of which it is false has a cut. -/
theorem exists_cutAt (closed : forall i k (inside : i < elems.length) (below : k < elems.length), i < k ->
    test elems[k] = true -> test elems[i] = true) : exists cut, CutAt test elems cut := by
  induction elems with
  | nil => exact ⟨0, Nat.le_refl 0, fun k inside => absurd inside (Nat.not_lt_zero k)⟩
  | cons first rest ih =>
      rcases ih fun i k inside below less =>
        closed (i + 1) (k + 1) (Nat.succ_lt_succ inside) (Nat.succ_lt_succ below) (Nat.succ_lt_succ less) with
        ⟨cut, fits, sides⟩
      cases front : test first with
      | true =>
          refine ⟨cut + 1, Nat.succ_le_succ fits, fun k inside => ?_⟩
          cases k with
          | zero => exact iff_of_true front (Nat.zero_lt_succ cut)
          | succ k => exact (sides k (Nat.lt_of_succ_lt_succ inside)).trans Nat.succ_lt_succ_iff.symm
      | false =>
          refine ⟨0, Nat.zero_le _, fun k inside => iff_of_false (fun yes => ?_) (Nat.not_lt_zero k)⟩
          cases k with
          | zero => exact Bool.false_ne_true (front.symm.trans yes)
          | succ k =>
              have also := closed 0 (k + 1) (Nat.zero_lt_succ _) inside (Nat.zero_lt_succ k) yes
              exact Bool.false_ne_true (front.symm.trans also)

/-- Where the search ends up: at a place of the span, and at the cut if the predicate has one. -/
def Halved (pred : Pred α C) (elems : List α) (place : Nat) : Prop :=
  place ≤ elems.length ∧ forall test cut, Pred.Answers pred test -> CutAt test elems cut -> place = cut

/-- The cut, if there is one, is never outside of what is left to search. -/
theorem ends_partitionPoint (holds : Holds heap.blocks span elems) {post : Nat × C -> SpanMem α -> Prop}
    (done : forall place ctx, Halved pred elems place -> post (place, ctx) heap) :
    Ends (partitionPoint span pred ctx) heap post := by
  have length := holds.length
  rw [partitionPoint, ends_bind, ends_assertSpan (Over.asserts holds)]
  refine ends_loop (fun left (vars : Nat × Nat × C) mid => mid = heap ∧ left = vars.2.1 - vars.1 ∧
    vars.1 ≤ vars.2.1 ∧ vars.2.1 ≤ elems.length ∧
    forall test cut, Pred.Answers pred test -> CutAt test elems cut -> vars.1 ≤ cut ∧ cut ≤ vars.2.1) ?_
    (n := span.len) ⟨rfl, rfl, Nat.zero_le _, Nat.le_of_eq length.symm,
      fun test cut _ at_ => ⟨Nat.zero_le cut, length ▸ at_.1⟩⟩ (Nat.lt_succ_self _)
  rintro left ⟨lo, hi, ctx⟩ mid ⟨rfl, rfl, low, high, between⟩
  dsimp only at low high between ⊢
  rw [ends_ite]
  constructor
  · intro some_
    have inside : lo + (hi - lo) / 2 < elems.length := by omega
    rw [ends_bind, ends_get holds inside, ends_ite]
    -- the answer is about the middle elem, and the cut is behind it or not
    constructor
    · intro passes
      refine (ends_pure _ _ _).mpr ⟨_, ?_, rfl, rfl, by dsimp only; omega, high, fun test cut answers at_ => ?_⟩
      · dsimp only
        omega
      · rw [answers] at passes
        exact ⟨(at_.2 _ inside).mp passes, (between test cut answers at_).2⟩
    · intro stops
      refine (ends_pure _ _ _).mpr
        ⟨_, ?_, rfl, rfl, by dsimp only; omega, by dsimp only; omega, fun test cut answers at_ => ?_⟩
      · dsimp only
        omega
      · rw [answers, at_.2 _ inside] at stops
        exact ⟨(between test cut answers at_).1, Nat.le_of_not_lt stops⟩
  · intro met
    refine (ends_pure _ _ _).mpr (done lo ctx ⟨by omega, fun test cut answers at_ => ?_⟩)
    have here := between test cut answers at_
    omega

end Halving

/-! ## Bounds -/

/-- The predicate that a bound halves by. -/
def passing (cmp : α -> β -> C -> Int × C) (upper : Bool) (key : β) : Pred α C := fun elem ctx =>
  (if upper then decide ((cmp elem key ctx).1 ≤ 0) else decide ((cmp elem key ctx).1 < 0), (cmp elem key ctx).2)

theorem bound_eq {key : β} {cmp : α -> β -> C -> Int × C} {upper : Bool} (asserts : span.Asserts) :
    bound span key cmp ctx upper = partitionPoint span (passing cmp upper key) ctx := by
  unfold partitionPoint assertSpan
  rw [Run.require_of asserts]
  rfl

/-- Whether the bound passes an elem, by the ranks of the elems. -/
def Passes (order : α -> α -> Int) (upper : Bool) (key elem : α) : Prop :=
  if upper = true then order elem key ≤ 0 else order elem key < 0

instance (order : α -> α -> Int) (upper : Bool) (key elem : α) : Decidable (Passes order upper key elem) := by
  unfold Passes
  infer_instance

/-- In a sorted span the elems that are passed are in front. -/
theorem Passes.of_le {order : α -> α -> Int} (orders : cmp.Orders order) {upper : Bool} {first second : α}
    (le : Cmp.le order first second) (passes : Passes order upper key second) : Passes order upper key first := by
  unfold Passes at passes ⊢
  by_cases up : upper = true
  · rw [if_pos up] at passes ⊢
    exact orders.trans le passes
  · rw [if_neg up] at passes ⊢
    by_contra behind
    -- the key is not behind the first elem, so not behind the second either
    have keyFirst : order key first ≤ 0 := by
      have sign := orders.antisymm key first
      have back := orders.antisymm first key
      omega
    have keySecond := orders.trans keyFirst le
    have sign := orders.antisymm second key
    omega

/-- Where the bound is: a place of the span, and if the span is sorted the
place behind the elems that are passed. -/
def Bounds (cmp : Cmp α C) (upper : Bool) (key : α) (elems : List α) (place : Nat) : Prop :=
  place ≤ elems.length ∧ forall order, cmp.Orders order -> elems.Pairwise (Cmp.le order) ->
    (forall elem, elem ∈ elems.take place -> Passes order upper key elem) ∧
      forall elem, elem ∈ elems.drop place -> ¬ Passes order upper key elem

/-- In a sorted span the bound is a cut. -/
theorem Halved.bounds {cmp : Cmp α C} {key : α} {upper : Bool} {place : Nat}
    (halved : Halved (passing cmp upper key) elems place) : Bounds cmp upper key elems place := by
  refine ⟨halved.1, fun order orders sorted => ?_⟩
  have answers : Pred.Answers (passing cmp upper key) fun elem => decide (Passes order upper key elem) := by
    intro elem ctx
    unfold passing Passes
    rw [orders.answers]
    cases upper with
    | true => rfl
    | false => rfl
  have closed : forall i k (inside : i < elems.length) (below : k < elems.length), i < k ->
      decide (Passes order upper key elems[k]) = true -> decide (Passes order upper key elems[i]) = true := by
    intro i k inside below less passes
    exact decide_eq_true (Passes.of_le orders (List.pairwise_iff_getElem.mp sorted i k inside below less)
      (of_decide_eq_true passes))
  have sorted_ : exists cut, CutAt (fun elem => decide (Passes order upper key elem)) elems cut := exists_cutAt closed
  rcases sorted_ with ⟨cut, cutAt⟩
  rw [halved.2 _ cut answers cutAt]
  exact ⟨fun elem member => of_decide_eq_true (cutAt.mem_take member),
    fun elem member => of_decide_eq_false (cutAt.mem_drop member)⟩

theorem ends_bound {upper : Bool} (holds : Holds heap.blocks span elems)
    {post : Nat × C -> SpanMem α -> Prop}
    (done : forall place ctx, Bounds cmp upper key elems place -> post (place, ctx) heap) :
    Ends (bound span key cmp ctx upper) heap post := by
  rw [bound_eq (Over.asserts holds)]
  exact ends_partitionPoint holds fun place ctx halved => done place ctx halved.bounds

theorem ends_lowerBound (holds : Holds heap.blocks span elems) {post : Nat × C -> SpanMem α -> Prop}
    (done : forall place ctx, Bounds cmp false key elems place -> post (place, ctx) heap) :
    Ends (lowerBound span key cmp ctx) heap post := by
  rw [lowerBound, ends_bind, ends_assertSpan (Over.asserts holds)]
  exact ends_bound holds done

theorem ends_upperBound (holds : Holds heap.blocks span elems) {post : Nat × C -> SpanMem α -> Prop}
    (done : forall place ctx, Bounds cmp true key elems place -> post (place, ctx) heap) :
    Ends (upperBound span key cmp ctx) heap post := by
  rw [upperBound, ends_bind, ends_assertSpan (Over.asserts holds)]
  exact ends_bound holds done

end Span
end TerseDsa
