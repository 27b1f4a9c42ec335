import TerseDsa.Algo.Select
import Mathlib.Data.Nat.Log
import Mathlib.Tactic.Ring
import Mathlib.Algebra.Order.BigOperators.Group.Finset

namespace TerseDsa

open Foundation Run Foundation.BinaryHeap

/-!
# How often a comparator is asked

What the headers promise about the work of an algorithm is counted in calls of
the comparator.  Here the comparator counts them itself, in the state behind
its `ctx`, and may answer whatever it likes.
-/

/-- The comparator, and how often it was called. -/
def counted {α β C : Type} (cmp : α -> β -> C -> Int × C) : α -> β -> Nat × C -> Int × (Nat × C) :=
  fun lhs rhs ctx => ((cmp lhs rhs ctx.2).1, ctx.1 + 1, (cmp lhs rhs ctx.2).2)

namespace Span

variable {α β C : Type} {heap mid later : SpanMem α} {s : Span} {cmp : Cmp α C} {ctx : Nat × C} {len idx i j n : Nat}

/-! ## A span that is written -/

/-- The span shows a row of elems. -/
def Shown (s : Span) (heap : SpanMem α) : Prop := exists elems, Holds heap.blocks s elems

/-- Nothing but the elems of the span may have changed. -/
def Wrote (s : Span) (heap later : SpanMem α) : Prop :=
  exists elems now, Holds heap.blocks s elems ∧ now.length = elems.length ∧ later.blocks = place heap.blocks s now

theorem Wrote.refl (shown : Shown s heap) : Wrote s heap heap := by
  rcases shown with ⟨elems, holds⟩
  exact ⟨elems, elems, holds, rfl, holds.place_same.symm⟩

theorem Wrote.shown (wrote : Wrote s heap later) : Shown s later := by
  rcases wrote with ⟨elems, now, holds, length, put⟩
  exact ⟨now, put ▸ holds.placed length⟩

theorem Wrote.trans (first : Wrote s heap mid) (second : Wrote s mid later) : Wrote s heap later := by
  rcases first with ⟨elems, now, holds, length, put⟩
  rcases second with ⟨row, next, holdsMid, lengthNext, putNext⟩
  have same := holdsMid.length.trans holds.length.symm
  refine ⟨elems, next, holds, lengthNext.trans same, ?_⟩
  rw [putNext, put, holds.place_place length (lengthNext.trans same)]

/-- The part of a row, and what is around it. -/
theorem exists_part {elems : List α} {count : Nat} (within : idx + count ≤ elems.length) :
    exists left mid right, elems = left ++ mid ++ right ∧ idx = left.length ∧ count = mid.length := by
  refine ⟨elems.take idx, (elems.drop idx).take count, elems.drop (idx + count), ?_, ?_, ?_⟩
  · rw [List.append_assoc, ← List.drop_drop, List.take_append_drop, List.take_append_drop]
  · rw [List.length_take]
    omega
  · rw [List.length_take, List.length_drop]
    omega

/-- What writes a part writes the span. -/
theorem Wrote.of_part {count : Nat} (shown : Shown s heap) (within : idx + count ≤ s.len)
    (wrote : Wrote (s.part idx count) heap later) : Wrote s heap later := by
  rcases shown with ⟨elems, holds⟩
  rcases wrote with ⟨row, now, holdsPart, length, put⟩
  rcases exists_part (holds.length.symm ▸ within) with ⟨left, mid, right, rfl, rfl, rfl⟩
  have lengthNow : now.length = mid.length := length.trans holdsPart.length
  refine ⟨_, left ++ now ++ right, holds, ?_, put.trans (holds.place_part lengthNow)⟩
  simp only [List.length_append, lengthNow]

namespace Shown

theorem asserts (shown : Shown s heap) : s.Asserts := by
  rcases shown with ⟨elems, holds⟩
  exact Over.asserts holds

theorem part {count : Nat} (shown : Shown s heap) (within : idx + count ≤ s.len) : Shown (s.part idx count) heap := by
  rcases shown with ⟨elems, holds⟩
  rcases exists_part (holds.length.symm ▸ within) with ⟨left, mid, right, rfl, rfl, rfl⟩
  exact ⟨mid, holds.part⟩

theorem ends_get (shown : Shown s heap) (inside : idx < s.len) {post : α -> SpanMem α -> Prop}
    (done : forall elem, post elem heap) : Ends (get s idx) heap post := by
  rcases shown with ⟨elems, holds⟩
  have within : idx < elems.length := holds.length.symm ▸ inside
  exact (Span.ends_get holds within).mpr (done _)

theorem ends_swapElems (shown : Shown s heap) (first : i < s.len) (second : j < s.len) {post : Unit -> SpanMem α -> Prop}
    (done : forall later, Wrote s heap later -> post () later) : Ends (swapElems α s i j) heap post := by
  rcases shown with ⟨elems, holds⟩
  have length := holds.length
  apply Span.ends_swapElems holds (by omega) (by omega)
  exact fun later put => done later ⟨elems, _, holds, length_exchanged i j, put⟩

end Shown

/-! ## Heaps -/

theorem log2_mono {few many : Nat} (le : few ≤ many) : Nat.log2 few ≤ Nat.log2 many := by
  rw [Nat.log2_eq_log_two, Nat.log2_eq_log_two]
  exact Nat.log_mono_right le

/-- How many levels a heap of so many places has below one of them. -/
def levels (len idx : Nat) : Nat := Nat.log2 (len / (idx + 1))

theorem levels_child {best : Nat} (low : heapLeft idx ≤ best) (inside : best < len) :
    levels len best + 1 ≤ levels len idx := by
  unfold heapLeft at low
  unfold levels
  have two : 2 ≤ len / (idx + 1) := (Nat.le_div_iff_mul_le (Nat.succ_pos idx)).mpr (by omega)
  have half : len / (best + 1) ≤ len / (idx + 1) / 2 := by
    rw [Nat.div_div_eq_div_mul]
    exact Nat.div_le_div_left (by omega) (by omega)
  rw [Nat.log2_def (len / (idx + 1)), if_pos two]
  exact Nat.succ_le_succ (log2_mono half)

theorem levels_le : levels len idx ≤ Nat.log2 len := log2_mono (Nat.div_le_self len _)

/-- A place of the back half has no level below it. -/
theorem levels_leaf (leaf : len / 2 ≤ idx) : levels len idx = 0 := by
  have one : len / (idx + 1) < 2 := (Nat.div_lt_iff_lt_mul (Nat.succ_pos idx)).mpr (by omega)
  unfold levels
  rw [Nat.log2_def, if_neg (Nat.not_le.mpr one)]

/-- All places of a heap together have no more levels below them than there are places. -/
theorem sum_levels_le (len : Nat) : (Finset.range (len / 2)).sum (levels len) ≤ len := by
  induction len using Nat.strongRecOn with
  | ind len ih =>
    rcases Nat.eq_zero_or_pos len with rfl | some_
    · exact Nat.le_refl 0
    · -- one level up there is a heap of half as many places
      have up : forall idx, idx ∈ Finset.range (len / 2) -> levels len idx = levels (len / 2) idx + 1 := by
        intro idx inside
        have two : 2 ≤ len / (idx + 1) := by
          rw [Finset.mem_range] at inside
          exact (Nat.le_div_iff_mul_le (Nat.succ_pos idx)).mpr (by omega)
        unfold levels
        rw [Nat.log2_def (len / (idx + 1)), if_pos two, Nat.div_div_eq_div_mul, Nat.div_div_eq_div_mul, Nat.mul_comm 2]
      have front : (Finset.range (len / 2)).sum (levels (len / 2)) =
          (Finset.range (len / 2 / 2)).sum (levels (len / 2)) := by
        refine (Finset.sum_subset (Finset.range_subset_range.mpr (Nat.div_le_self _ 2)) fun idx _ behind => ?_).symm
        rw [Finset.mem_range] at behind
        exact levels_leaf (Nat.le_of_not_lt behind)
      have few := ih (len / 2) (Nat.div_lt_self some_ (by decide))
      rw [Finset.sum_congr rfl up, Finset.sum_add_distrib, Finset.sum_const_nat fun _ _ => rfl, Finset.card_range, front]
      omega

theorem ends_heapAbove_counted {upper lower : Nat} (shown : Shown s heap) (up : upper < s.len) (low : lower < s.len)
    {post : Bool × Nat × C -> SpanMem α -> Prop}
    (done : forall above after, after.1 = ctx.1 + 1 -> post (above, after) heap) :
    Ends (heapAbove s upper lower (counted cmp) ctx) heap post := by
  simp only [heapAbove, ends_bind]
  apply shown.ends_get up
  intro first
  apply shown.ends_get low
  intro second
  exact (ends_pure _ _ _).mpr (done _ _ rfl)

theorem ends_bestChild_counted (shown : Shown s heap) (within : len ≤ s.len) (inner : heapLeft idx < len)
    {post : Nat × Nat × C -> SpanMem α -> Prop}
    (done : forall best after, heapLeft idx ≤ best -> best < len -> after.1 ≤ ctx.1 + 1 -> post (best, after) heap) :
    Ends (bestChild s idx len (counted cmp) ctx) heap post := by
  rw [bestChild, ends_ite]
  constructor
  · intro two
    rw [ends_bind]
    apply ends_heapAbove_counted shown (by omega) (by omega)
    intro above after once
    rw [ends_pure]
    cases above with
    | true => exact done _ _ (Nat.le_refl _) inner (Nat.le_of_eq once)
    | false => exact done _ _ (Nat.le_succ _) two (Nat.le_of_eq once)
  · intro one
    exact (ends_pure _ _ _).mpr (done _ _ (Nat.le_refl _) inner (Nat.le_succ _))

theorem ends_siftDown_counted (shown : Shown s heap) (within : len ≤ s.len) {post : Nat × C -> SpanMem α -> Prop}
    (done : forall after later, Wrote s heap later -> after.1 ≤ ctx.1 + 2 * levels len idx -> post after later) :
    Ends (siftDown s idx len (counted cmp) ctx) heap post := by
  simp only [siftDown, ends_bind, ends_require, within, true_and]
  refine ends_loop (fun rounds (vars : Nat × Nat × C) mid => Wrote s heap mid ∧ rounds = len - vars.1 ∧
    vars.2.1 + 2 * levels len vars.1 ≤ ctx.1 + 2 * levels len idx) ?_ ⟨Wrote.refl shown, rfl, Nat.le_refl _⟩
    (Nat.lt_succ_of_le (Nat.sub_le len idx))
  rintro rounds ⟨hole, now⟩ mid ⟨wrote, rfl, spent⟩
  dsimp only at spent ⊢
  rw [ends_ite]
  constructor
  · intro leaf
    exact (ends_pure _ _ _).mpr (done _ _ wrote (by omega))
  · intro inner
    rw [ends_bind]
    apply ends_bestChild_counted wrote.shown within (Nat.lt_of_not_ge inner)
    intro best after low inside once
    have fewer := levels_child low inside
    have below : hole < best := by
      unfold heapLeft at low
      omega
    rw [ends_bind]
    apply ends_heapAbove_counted wrote.shown (by omega) (by omega)
    intro above last again
    dsimp only at once again
    rw [ends_ite]
    constructor
    · intro settled
      exact (ends_pure _ _ _).mpr (done last mid wrote (by omega))
    · intro wrong
      rw [ends_bind]
      apply wrote.shown.ends_swapElems (by omega) (by omega)
      intro later swapped
      rw [ends_pure]
      exact ⟨len - best, by omega, wrote.trans swapped, rfl, by dsimp only; omega⟩

theorem ends_siftUp_counted (shown : Shown s heap) (inside : idx < s.len) {post : Nat × C -> SpanMem α -> Prop}
    (done : forall after later, Wrote s heap later -> after.1 ≤ ctx.1 + Nat.log2 (idx + 1) -> post after later) :
    Ends (siftUp s idx (counted cmp) ctx) heap post := by
  rw [siftUp]
  refine ends_loop (fun rounds (vars : Nat × Nat × C) mid => Wrote s heap mid ∧ vars.1 < s.len ∧ rounds = vars.1 ∧
    vars.2.1 + Nat.log2 (vars.1 + 1) ≤ ctx.1 + Nat.log2 (idx + 1)) ?_
    ⟨Wrote.refl shown, inside, rfl, Nat.le_refl _⟩ (by omega)
  rintro hole ⟨_, now⟩ mid ⟨wrote, within, rfl, spent⟩
  dsimp only at within spent ⊢
  rw [ends_ite]
  constructor
  · intro some_
    have below := parent_lt some_
    have fewer : Nat.log2 (parent hole + 1) + 1 = Nat.log2 (hole + 1) := by
      rw [Nat.log2_def (hole + 1), if_pos (by omega)]
      unfold parent
      rw [(by omega : (hole - 1) / 2 + 1 = (hole + 1) / 2)]
    rw [ends_bind, ends_heapParent some_, ends_bind]
    apply ends_heapAbove_counted wrote.shown (by omega) (by omega)
    intro above after once
    rw [ends_ite]
    constructor
    · intro settled
      exact (ends_pure _ _ _).mpr (done after mid wrote (by omega))
    · intro wrong
      rw [ends_bind]
      apply wrote.shown.ends_swapElems (by omega) (by omega)
      intro later swapped
      rw [ends_pure]
      exact ⟨parent hole, below, wrote.trans swapped, by dsimp only; omega, rfl, by dsimp only; omega⟩
  · intro root
    exact (ends_pure _ _ _).mpr (done _ _ wrote (by omega))

/-- A heap is made with two calls for each elem. -/
theorem ends_makeHeap_counted (shown : Shown s heap) {post : Nat × C -> SpanMem α -> Prop}
    (done : forall after later, Wrote s heap later -> after.1 ≤ ctx.1 + 2 * s.len -> post after later) :
    Ends (makeHeap s (counted cmp) ctx) heap post := by
  have total := sum_levels_le s.len
  simp only [makeHeap, ends_bind, ends_assertSpan shown.asserts]
  refine ends_loop (fun rounds (vars : Nat × Nat × C) mid => Wrote s heap mid ∧ rounds = vars.1 ∧
    vars.2.1 + 2 * (Finset.range vars.1).sum (levels s.len) ≤
      ctx.1 + 2 * (Finset.range (s.len / 2)).sum (levels s.len)) ?_
    ⟨Wrote.refl shown, rfl, Nat.le_refl _⟩ (by omega)
  rintro i ⟨_, now⟩ mid ⟨wrote, rfl, spent⟩
  dsimp only at spent ⊢
  rw [ends_ite]
  constructor
  · intro some_
    rw [ends_bind]
    apply ends_siftDown_counted wrote.shown (Nat.le_refl _)
    intro after later sifted cost
    rw [ends_pure]
    refine ⟨i - 1, by omega, wrote.trans sifted, rfl, ?_⟩
    obtain ⟨k, rfl⟩ : exists k, i = k + 1 := ⟨i - 1, by omega⟩
    rw [Finset.sum_range_succ] at spent
    simp only [Nat.add_sub_cancel] at cost ⊢
    omega
  · intro none_
    exact (ends_pure _ _ _).mpr (done _ _ wrote (by omega))

theorem ends_pushHeap_counted (shown : Shown s heap) (some_ : 0 < s.len) {post : Nat × C -> SpanMem α -> Prop}
    (done : forall after later, Wrote s heap later -> after.1 ≤ ctx.1 + Nat.log2 s.len -> post after later) :
    Ends (pushHeap s (counted cmp) ctx) heap post := by
  simp only [pushHeap, ends_bind, ends_assertSpan shown.asserts, ends_require, gt_iff_lt, some_, true_and]
  apply ends_siftUp_counted shown (by omega)
  intro after later wrote cost
  rw [Nat.sub_add_cancel some_] at cost
  exact done after later wrote cost

theorem ends_popHeap_counted (shown : Shown s heap) (some_ : 0 < s.len) {post : Nat × C -> SpanMem α -> Prop}
    (done : forall after later, Wrote s heap later -> after.1 ≤ ctx.1 + 2 * Nat.log2 s.len -> post after later) :
    Ends (popHeap s (counted cmp) ctx) heap post := by
  simp only [popHeap, ends_bind, ends_assertSpan shown.asserts, ends_require, gt_iff_lt, some_, true_and]
  rw [ends_ite]
  constructor
  · intro one
    exact (ends_pure _ _ _).mpr (done ctx heap (Wrote.refl shown) (Nat.le_add_right _ _))
  · intro more
    rw [ends_bind]
    apply shown.ends_swapElems some_ (by omega)
    intro mid swapped
    apply ends_siftDown_counted swapped.shown (Nat.sub_le _ _)
    intro after later sifted cost
    have few : levels (s.len - 1) 0 ≤ Nat.log2 s.len := Nat.le_trans levels_le (log2_mono (Nat.sub_le _ _))
    exact done after later (swapped.trans sifted) (by omega)

theorem ends_sortHeap_counted (shown : Shown s heap) {post : Nat × C -> SpanMem α -> Prop}
    (done : forall after later, Wrote s heap later -> after.1 ≤ ctx.1 + s.len * (2 * Nat.log2 s.len) -> post after later) :
    Ends (sortHeap s (counted cmp) ctx) heap post := by
  simp only [sortHeap, ends_bind, ends_assertSpan shown.asserts]
  refine ends_loop (fun rounds (vars : Nat × Nat × C) mid => Wrote s heap mid ∧ vars.1 ≤ s.len ∧ rounds = vars.1 ∧
    vars.2.1 + vars.1 * (2 * Nat.log2 s.len) ≤ ctx.1 + s.len * (2 * Nat.log2 s.len)) ?_
    ⟨Wrote.refl shown, Nat.le_refl _, rfl, Nat.le_refl _⟩ (by omega)
  rintro len ⟨_, now⟩ mid ⟨wrote, within, rfl, spent⟩
  dsimp only at within spent ⊢
  rw [ends_ite]
  constructor
  · intro more
    have front : 0 + len ≤ s.len := by omega
    rw [ends_bind, ends_sub shown.asserts front, ends_bind]
    apply ends_popHeap_counted (wrote.shown.part front) (Nat.lt_of_succ_lt more)
    intro after later popped cost
    have few : Nat.log2 (s.part 0 len).len ≤ Nat.log2 s.len := log2_mono within
    rw [ends_pure]
    refine ⟨len - 1, by omega, wrote.trans (Wrote.of_part wrote.shown front popped), by dsimp only; omega, rfl, ?_⟩
    obtain ⟨k, rfl⟩ : exists k, len = k + 1 := ⟨len - 1, by omega⟩
    rw [Nat.succ_mul] at spent
    simp only [Nat.add_sub_cancel]
    omega
  · intro few
    exact (ends_pure _ _ _).mpr (done _ _ wrote (by omega))

/-! ## Sorts -/

/-- The slot of an elem is found with one call at most for each elem in front of it. -/
theorem ends_insertionSlot_counted (shown : Shown s heap) (inside : i < s.len) {post : Nat × Nat × C -> SpanMem α -> Prop}
    (done : forall slot after, slot ≤ i -> after.1 ≤ ctx.1 + i -> post (slot, after) heap) :
    Ends (insertionSlot s i (counted cmp) ctx) heap post := by
  rw [insertionSlot, ends_bind]
  apply shown.ends_get inside
  intro val
  refine ends_loop (fun rounds (vars : Nat × Nat × C) mid => mid = heap ∧ vars.1 ≤ i ∧ rounds = vars.1 ∧
    vars.2.1 + vars.1 ≤ ctx.1 + i) ?_ ⟨rfl, Nat.le_refl _, rfl, Nat.le_refl _⟩ (Nat.lt_succ_self _)
  rintro slot ⟨_, now⟩ mid ⟨rfl, low, rfl, spent⟩
  dsimp only at low spent ⊢
  rw [ends_ite]
  constructor
  · intro some_
    rw [ends_bind]
    apply shown.ends_get (by omega)
    intro prev
    have once : (rightGoesFirst (counted cmp) prev val now).2.1 = now.1 + 1 := rfl
    generalize rightGoesFirst (counted cmp) prev val now = answer at once
    rw [ends_ite]
    constructor
    · intro before
      exact (ends_pure _ _ _).mpr ⟨slot - 1, by omega, rfl, by dsimp only; omega, rfl, by dsimp only; omega⟩
    · intro settled
      exact (ends_pure _ _ _).mpr (done slot _ low (by omega))
  · intro front
    exact (ends_pure _ _ _).mpr (done slot now low (by omega))

theorem ends_slide_counted (shown : Shown s heap) (inside : i < s.len) (low : j ≤ i) {post : Unit -> SpanMem α -> Prop}
    (done : forall later, Wrote s heap later -> post () later) :
    Ends (swapDown α s i j) heap post ∧ Ends (slideHeld α s i j) heap post := by
  rcases shown with ⟨elems, holds⟩
  have within : i < elems.length := holds.length.symm ▸ inside
  -- the elem goes in front of those between the slot and its place
  have split : elems = elems.take j ++ (elems.drop j).take (i - j) ++ elems[i] :: elems.drop (i + 1) := by
    have rest := List.take_append_drop (i - j) (elems.drop j)
    rw [List.drop_drop, (by omega : j + (i - j) = i), List.drop_eq_getElem_cons within] at rest
    rw [List.append_assoc, rest, List.take_append_drop]
  have lengthPre : j = (elems.take j).length := by
    rw [List.length_take]
    omega
  have lengthMid : i = (elems.take j).length + ((elems.drop j).take (i - j)).length := by
    rw [List.length_take, List.length_take, List.length_drop]
    omega
  generalize elems.take j = pre at split lengthPre lengthMid
  generalize (elems.drop j).take (i - j) = mid at split lengthMid
  generalize elems[i] = val at split
  generalize elems.drop (i + 1) = rest at split
  subst split
  have wrote : forall later : SpanMem α, later.blocks = place heap.blocks s (pre ++ val :: mid ++ rest) ->
      post () later := by
    intro later put
    refine done later ⟨_, _, holds, ?_, put⟩
    simp only [List.length_append, List.length_cons]
    omega
  exact ⟨ends_swapDown holds lengthMid lengthPre wrote, ends_slideHeld holds lengthMid lengthPre wrote⟩

/-- A pair of elems is compared at most once. -/
theorem ends_insertionSort_counted (shown : Shown s heap) {post : Nat × C -> SpanMem α -> Prop}
    (done : forall after later, Wrote s heap later -> 2 * after.1 ≤ 2 * ctx.1 + s.len * (s.len - 1) -> post after later) :
    Ends (insertionSort s (counted cmp) ctx) heap post := by
  rw [insertionSort, ends_bind, ends_assertSpan shown.asserts]
  refine ends_loop (fun rounds (vars : Nat × Nat × C) mid => Wrote s heap mid ∧ rounds = s.len - vars.1 ∧ 1 ≤ vars.1 ∧
    (vars.1 ≤ s.len ∨ vars.1 = 1) ∧ 2 * vars.2.1 ≤ 2 * ctx.1 + vars.1 * (vars.1 - 1)) ?_
    ⟨Wrote.refl shown, rfl, Nat.le_refl 1, Or.inr rfl, Nat.le_add_right _ _⟩ (by omega)
  rintro rounds ⟨i, now⟩ mid ⟨wrote, rfl, some_, reach, spent⟩
  dsimp only at some_ reach spent ⊢
  rw [ends_ite]
  constructor
  · intro inside
    rw [ends_bind]
    apply ends_insertionSlot_counted wrote.shown inside
    intro slot after low cost
    have next : 2 * after.1 ≤ 2 * ctx.1 + (i + 1) * (i + 1 - 1) := by
      obtain ⟨k, rfl⟩ : exists k, i = k + 1 := ⟨i - 1, by omega⟩
      simp only [Nat.add_sub_cancel] at spent ⊢
      have grown : (k + 1 + 1) * (k + 1) = (k + 1) * k + 2 * (k + 1) := by ring
      omega
    rw [ends_ite]
    constructor
    · intro large
      rw [ends_bind]
      refine (ends_slide_counted wrote.shown inside low fun later moved => ?_).1
      exact (ends_pure _ _ _).mpr ⟨s.len - (i + 1), by omega, wrote.trans moved, rfl, by omega, Or.inl inside, next⟩
    · intro small
      rw [ends_bind]
      refine (ends_slide_counted wrote.shown inside low fun later moved => ?_).2
      exact (ends_pure _ _ _).mpr ⟨s.len - (i + 1), by omega, wrote.trans moved, rfl, by omega, Or.inl inside, next⟩
  · intro all
    refine (ends_pure _ _ _).mpr (done now mid wrote ?_)
    have last : i * (i - 1) ≤ s.len * (s.len - 1) := by
      rcases reach with within | one
      · exact Nat.mul_le_mul within (Nat.sub_le_sub_right within 1)
      · rw [one]
        exact Nat.zero_le _
    omega

theorem ends_median3_counted {a b c : Nat} (shown : Shown s heap) (first : a < s.len) (second : b < s.len)
    (third : c < s.len) {post : Nat × Nat × C -> SpanMem α -> Prop}
    (done : forall idx after, idx = a ∨ idx = b ∨ idx = c -> after.1 = ctx.1 + 3 -> post (idx, after) heap) :
    Ends (median3 s a b c (counted cmp) ctx) heap post := by
  simp only [median3, ends_bind]
  apply shown.ends_get first
  intro x
  apply shown.ends_get second
  intro y
  apply shown.ends_get third
  intro z
  rw [ends_ite]
  constructor
  · exact fun _ => (ends_pure _ _ _).mpr (done a _ (Or.inl rfl) rfl)
  · intro _
    rw [ends_ite]
    constructor
    · exact fun _ => (ends_pure _ _ _).mpr (done b _ (Or.inr (Or.inl rfl)) rfl)
    · exact fun _ => (ends_pure _ _ _).mpr (done c _ (Or.inr (Or.inr rfl)) rfl)

theorem ends_ninther_counted {left right : Nat} (shown : Shown s heap) (ordered : left < right) (inside : right < s.len)
    {post : Nat × Nat × C -> SpanMem α -> Prop}
    (done : forall idx after, left ≤ idx -> idx ≤ right -> after.1 = ctx.1 + 12 -> post (idx, after) heap) :
    Ends (ninther s left right (counted cmp) ctx) heap post := by
  simp only [ninther, ends_bind]
  have around : (right - left + 1) / 8 ≤ (right - left + 1) / 2 := by omega
  have behind : (right - left + 1) / 2 + (right - left + 1) / 8 ≤ right - left := by omega
  generalize (right - left + 1) / 8 = step at around behind ⊢
  generalize (right - left + 1) / 2 = half at around behind ⊢
  apply ends_median3_counted shown (by omega) (by omega) (by omega)
  intro lo first isLo costLo
  replace isLo : left ≤ lo ∧ lo ≤ right := by omega
  apply ends_median3_counted shown (by omega) (by omega) (by omega)
  intro md second isMd costMd
  replace isMd : left ≤ md ∧ md ≤ right := by omega
  apply ends_median3_counted shown (by omega) (by omega) (by omega)
  intro hi third isHi costHi
  replace isHi : left ≤ hi ∧ hi ≤ right := by omega
  apply ends_median3_counted shown (by omega) (by omega) (by omega)
  intro idx last isIdx cost
  dsimp only at costMd costHi cost
  exact done idx last (by omega) (by omega) (by omega)

/-- A split compares each other elem with the pivot once. -/
theorem ends_partition3_counted {left right pivotIdx : Nat} (shown : Shown s heap) (from_ : left ≤ pivotIdx)
    (upTo : pivotIdx ≤ right) (inside : right < s.len) {post : Split × Nat × C -> SpanMem α -> Prop}
    (done : forall lt gt after later, Wrote s heap later -> left ≤ lt -> lt ≤ gt -> gt ≤ right ->
      after.1 = ctx.1 + (right - left) -> post (⟨lt, gt⟩, after) later) :
    Ends (partition3 s left right pivotIdx (counted cmp) ctx) heap post := by
  simp only [partition3, ends_bind, ends_require, from_, upTo, and_self, true_and]
  apply shown.ends_swapElems (by omega) (by omega)
  intro mid swapped
  refine ends_loop (fun rounds (vars : Partitioning (Nat × C)) mid => Wrote s heap mid ∧
    rounds = vars.hi + 1 - vars.i ∧ left ≤ vars.lo ∧ vars.lo < vars.i ∧ vars.i ≤ vars.hi + 1 ∧ vars.hi ≤ right ∧
    vars.ctx.1 + (vars.hi + 1 - vars.i) = ctx.1 + (right - left)) ?_ (n := right - left)
    ⟨swapped, by dsimp only; omega, Nat.le_refl _, Nat.lt_succ_self _, by dsimp only; omega, Nat.le_refl _,
      by dsimp only; omega⟩ (Nat.lt_succ_self _)
  rintro rounds ⟨lo, i, hi, now⟩ mid ⟨wrote, rfl, first, ordered, reach, last, spent⟩
  dsimp only at first ordered reach last spent ⊢
  rw [ends_ite]
  constructor
  · intro more
    rw [ends_bind]
    apply wrote.shown.ends_get (by omega)
    intro elem
    rw [ends_bind]
    apply wrote.shown.ends_get (by omega)
    intro pivot
    have once : (counted cmp elem pivot now).2.1 = now.1 + 1 := rfl
    generalize counted cmp elem pivot now = answer at once
    rw [ends_ite]
    constructor
    · intro less
      rw [ends_bind]
      apply wrote.shown.ends_swapElems (by omega) (by omega)
      intro later exchanged
      exact (ends_pure _ _ _).mpr ⟨hi + 1 - (i + 1), by omega, wrote.trans exchanged, rfl, by dsimp only; omega,
        by dsimp only; omega, by dsimp only; omega, last, by dsimp only; omega⟩
    · intro notLess
      rw [ends_ite]
      constructor
      · intro greater
        rw [ends_bind]
        apply wrote.shown.ends_swapElems (by omega) (by omega)
        intro later exchanged
        exact (ends_pure _ _ _).mpr ⟨hi - 1 + 1 - i, by omega, wrote.trans exchanged, rfl, first, ordered,
          by dsimp only; omega, by dsimp only; omega, by dsimp only; omega⟩
      · intro same
        exact (ends_pure _ _ _).mpr ⟨hi + 1 - (i + 1), by omega, wrote, rfl, first, by dsimp only; omega,
          by dsimp only; omega, last, by dsimp only; omega⟩
  · intro all
    exact (ends_pure _ _ _).mpr (done lo hi now mid wrote first (by omega) last (by omega))

theorem ends_closedRange_shown {S : Type} {left right : Nat} (shown : Shown s heap) (ordered : left ≤ right)
    (inside : right < s.len) {t : S} {post : Span -> S -> Prop} (done : post (s.part left (right - left + 1)) t) :
    Ends (closedRange s left right) t post := by
  rw [closedRange, ends_sub shown.asserts (by omega)]
  exact done

/-- How often quicksort asks about `count` elems, of a range of `whole`, with `depth` splits left. -/
def quicksortCost (whole count depth : Nat) : Nat := count * (2 * depth + (2 * Nat.log2 whole + 8))

/-- A split pays for itself by the depth it uses up. -/
theorem quicksortCost_split {whole count depth below above : Nat} (deep : 0 < depth) (many : 11 ≤ count)
    (parts : below + above + 1 ≤ count) :
    12 + (count - 1) + quicksortCost whole below (depth - 1) + quicksortCost whole above (depth - 1) ≤
      quicksortCost whole count depth := by
  obtain ⟨less, rfl⟩ : exists less, depth = less + 1 := ⟨depth - 1, by omega⟩
  unfold quicksortCost
  simp only [Nat.add_sub_cancel]
  generalize 2 * Nat.log2 whole + 8 = rest
  have both : (below + above) * (2 * less + rest) ≤ count * (2 * less + rest) := Nat.mul_le_mul_right _ (by omega)
  have deeper : count * (2 * (less + 1) + rest) = count * (2 * less + rest) + 2 * count := by ring
  rw [Nat.add_mul] at both
  omega

theorem ends_quicksort_counted {bound left right depth whole : Nat} (shown : Shown s heap) (few : right - left < bound)
    (inside : right < s.len) (within : right - left + 1 ≤ whole) {post : Nat × C -> SpanMem α -> Prop}
    (done : forall after later, Wrote s heap later ->
      after.1 ≤ ctx.1 + quicksortCost whole (right - left + 1) depth -> post after later) :
    Ends (quicksort bound s left right depth (counted cmp) ctx) heap post := by
  induction bound generalizing left right depth ctx heap post with
  | zero => exact absurd few (Nat.not_lt_zero _)
  | succ bound ih =>
      rw [quicksort, ends_ite]
      constructor
      · intro more
        have range : left + (right - left + 1) ≤ s.len := by omega
        rw [ends_ite]
        constructor
        · intro short
          unfold insertionThreshold at short
          rw [ends_bind]
          apply ends_closedRange_shown shown (Nat.le_of_lt more) inside
          apply ends_insertionSort_counted (shown.part range)
          intro after later wrote cost
          refine done after later (Wrote.of_part shown range wrote) ?_
          have square : (right - left + 1) * (right - left) ≤ (right - left + 1) * 16 := Nat.mul_le_mul_left _ (by omega)
          have most : (right - left + 1) * 8 ≤ quicksortCost whole (right - left + 1) depth :=
            Nat.mul_le_mul_left _ (by omega)
          change 2 * after.1 ≤ 2 * ctx.1 + (right - left + 1) * (right - left + 1 - 1) at cost
          rw [Nat.add_sub_cancel] at cost
          omega
        · intro long
          unfold insertionThreshold at long
          rw [ends_ite]
          constructor
          · intro spent
            rw [ends_bind]
            apply ends_closedRange_shown shown (Nat.le_of_lt more) inside
            rw [ends_bind]
            apply ends_makeHeap_counted (shown.part range)
            intro built between made costMake
            apply ends_sortHeap_counted made.shown
            intro after later sorted cost
            refine done after later (Wrote.of_part shown range (made.trans sorted)) ?_
            change after.1 ≤ built.1 + (right - left + 1) * (2 * Nat.log2 (right - left + 1)) at cost
            change built.1 ≤ ctx.1 + 2 * (right - left + 1) at costMake
            have logs : Nat.log2 (right - left + 1) ≤ Nat.log2 whole := log2_mono within
            have most : (right - left + 1) * (2 * Nat.log2 (right - left + 1) + 2) ≤
                quicksortCost whole (right - left + 1) depth := Nat.mul_le_mul_left _ (by omega)
            rw [Nat.mul_add] at most
            omega
          · intro deep
            rw [ends_bind]
            apply ends_ninther_counted shown more inside
            intro pivotIdx chosen from_ upTo costPivot
            rw [ends_bind]
            apply ends_partition3_counted shown from_ upTo inside
            intro lt gt parted between divided first ordered last costSplit
            have pays : forall below above, below ≤ lt - left -> above ≤ right - gt ->
                12 + (right - left) + quicksortCost whole below (depth - 1) + quicksortCost whole above (depth - 1) ≤
                  quicksortCost whole (right - left + 1) depth := by
              intro below above fewBelow fewAbove
              have pays := @quicksortCost_split whole (right - left + 1) depth below above (Nat.pos_of_ne_zero deep)
                (by omega) (by omega)
              rwa [Nat.add_sub_cancel] at pays
            -- the sort of each side, wherever there is any of it
            have sortsBelow : forall (start : Nat × C) (mid : SpanMem α) {post : Nat × C -> SpanMem α -> Prop},
                Wrote s heap mid -> left < lt -> (forall after later, Wrote s heap later ->
                  after.1 ≤ start.1 + quicksortCost whole (lt - left) (depth - 1) -> post after later) ->
                Ends (quicksort bound s left (lt - 1) (depth - 1) (counted cmp) start) mid post := by
              intro start mid post wrote some_ done
              refine ih wrote.shown (by omega) (by omega) (by omega) fun after later sorted cost => ?_
              rw [(by omega : lt - 1 - left + 1 = lt - left)] at cost
              exact done after later (wrote.trans sorted) cost
            have sortsAbove : forall (start : Nat × C) (mid : SpanMem α) {post : Nat × C -> SpanMem α -> Prop},
                Wrote s heap mid -> gt < right -> (forall after later, Wrote s heap later ->
                  after.1 ≤ start.1 + quicksortCost whole (right - gt) (depth - 1) -> post after later) ->
                Ends (quicksort bound s (gt + 1) right (depth - 1) (counted cmp) start) mid post := by
              intro start mid post wrote some_ done
              refine ih wrote.shown (by omega) (by omega) (by omega) fun after later sorted cost => ?_
              rw [(by omega : right - (gt + 1) + 1 = right - gt)] at cost
              exact done after later (wrote.trans sorted) cost
            have paysBoth := pays _ _ (Nat.le_refl (lt - left)) (Nat.le_refl (right - gt))
            rw [ends_ite]
            constructor
            · intro shorter
              dsimp only at shorter
              rw [ends_bind, ends_ite]
              -- above the pivot there is something then
              have aboveLast : forall (start : Nat × C) (mid : SpanMem α), Wrote s heap mid ->
                  start.1 + quicksortCost whole (right - gt) (depth - 1) ≤
                    ctx.1 + quicksortCost whole (right - left + 1) depth ->
                  Ends (quicksort bound s (gt + 1) right (depth - 1) (counted cmp) start) mid post :=
                fun start mid wrote room => sortsAbove start mid wrote (by omega) fun after later wrote cost =>
                  done after later wrote (by omega)
              constructor
              · intro some_
                exact sortsBelow parted between divided some_ fun after later wrote cost =>
                  aboveLast after later wrote (by omega)
              · intro _
                exact (ends_pure _ _ _).mpr (aboveLast parted between divided (by omega))
            · intro _
              rw [ends_bind, ends_ite]
              have belowLast : forall (start : Nat × C) (mid : SpanMem α), Wrote s heap mid ->
                  start.1 + quicksortCost whole (lt - left) (depth - 1) ≤
                    ctx.1 + quicksortCost whole (right - left + 1) depth ->
                  Ends (if lt = left then pure start
                    else quicksort bound s left (lt - 1) (depth - 1) (counted cmp) start) mid post := by
                intro start mid wrote room
                rw [ends_ite]
                constructor
                · exact fun _ => (ends_pure _ _ _).mpr (done start mid wrote (by omega))
                · exact fun some_ => sortsBelow start mid wrote (by omega) fun after later wrote cost =>
                    done after later wrote (by omega)
              constructor
              · intro some_
                exact sortsAbove parted between divided some_ fun after later wrote cost =>
                  belowLast after later wrote (by omega)
              · intro _
                exact (ends_pure _ _ _).mpr (belowLast parted between divided (by omega))
      · intro short
        exact (ends_pure _ _ _).mpr (done ctx heap (Wrote.refl shown) (Nat.le_add_right _ _))

theorem ends_sort_counted (shown : Shown s heap) {post : Nat × C -> SpanMem α -> Prop}
    (done : forall after later, Wrote s heap later ->
      after.1 ≤ ctx.1 + s.len * (6 * Nat.log2 s.len + 8) -> post after later) :
    Ends (sort s (counted cmp) ctx) heap post := by
  simp only [sort, ends_bind, ends_assertSpan shown.asserts]
  rw [ends_ite]
  constructor
  · intro short
    exact (ends_pure _ _ _).mpr (done ctx heap (Wrote.refl shown) (Nat.le_add_right _ _))
  · intro long
    simp only [depthLimit, bitLog2Floor, ends_bind, ends_require, ends_pure]
    refine ⟨by omega, by omega, ?_⟩
    refine ends_quicksort_counted shown (by omega) (by omega) (Nat.le_of_eq (by omega : s.len - 1 - 0 + 1 = s.len)) ?_
    intro after later wrote cost
    refine done after later wrote ?_
    rw [(by omega : s.len - 1 - 0 + 1 = s.len), quicksortCost] at cost
    rwa [(by omega : 6 * Nat.log2 s.len + 8 = 2 * (2 * Nat.log2 s.len) + (2 * Nat.log2 s.len + 8))]

/-- The rounds of a selection, as deep as they may go, and then a sort. -/
def selectCost (len : Nat) : Nat := 2 * Nat.log2 len * (len + 11) + len * (6 * Nat.log2 len + 8)

theorem ends_nthElem_counted {nth : Nat} (shown : Shown s heap) (inside : nth < s.len)
    {post : Nat × C -> SpanMem α -> Prop}
    (done : forall after later, Wrote s heap later -> after.1 ≤ ctx.1 + selectCost s.len -> post after later) :
    Ends (nthElem s nth (counted cmp) ctx) heap post := by
  simp only [nthElem, ends_bind, ends_assertSpan shown.asserts, ends_require, inside, true_and]
  rw [ends_ite]
  constructor
  · intro short
    exact (ends_pure _ _ _).mpr (done ctx heap (Wrote.refl shown) (Nat.le_add_right _ _))
  · intro long
    simp only [depthLimit, bitLog2Floor, ends_bind, ends_require, ends_pure]
    refine ⟨by omega, by omega, ?_⟩
    unfold selectCost at done
    refine ends_loop (fun rounds (vars : Selecting (Nat × C)) mid => Wrote s heap mid ∧
      rounds = vars.right - vars.left ∧ vars.left ≤ nth ∧ nth ≤ vars.right ∧ vars.right < s.len ∧
      vars.ctx.1 + vars.depth * (s.len + 11) ≤ ctx.1 + 2 * Nat.log2 s.len * (s.len + 11)) ?_ (n := s.len - 1)
      ⟨Wrote.refl shown, rfl, Nat.zero_le _, by dsimp only; omega, by dsimp only; omega, Nat.le_refl _⟩ (by omega)
    rintro rounds ⟨left, right, depth, now⟩ mid ⟨wrote, rfl, from_, upTo, reach, spent⟩
    dsimp only at from_ upTo reach spent ⊢
    rw [ends_ite]
    constructor
    · intro more
      have range : left + (right - left + 1) ≤ s.len := by omega
      rw [ends_ite]
      constructor
      · intro deep
        rw [ends_bind]
        apply ends_closedRange_shown wrote.shown (Nat.le_of_lt more) reach
        rw [ends_bind]
        apply ends_sort_counted (wrote.shown.part range)
        intro after later sorted cost
        refine (ends_pure _ _ _).mpr (done after later (wrote.trans (Wrote.of_part wrote.shown range sorted)) ?_)
        have logs : Nat.log2 (right - left + 1) ≤ Nat.log2 s.len := log2_mono (by omega)
        have most : (right - left + 1) * (6 * Nat.log2 (right - left + 1) + 8) ≤ s.len * (6 * Nat.log2 s.len + 8) :=
          Nat.mul_le_mul (by omega) (by omega)
        change after.1 ≤ now.1 + (right - left + 1) * (6 * Nat.log2 (right - left + 1) + 8) at cost
        omega
      · intro shallow
        obtain ⟨less, rfl⟩ : exists less, depth = less + 1 := ⟨depth - 1, by omega⟩
        rw [Nat.succ_mul] at spent
        simp only [Nat.add_sub_cancel]
        rw [ends_bind]
        apply ends_ninther_counted wrote.shown more reach
        intro pivotIdx chosen low high costPivot
        rw [ends_bind]
        apply ends_partition3_counted wrote.shown low high reach
        intro lt gt parted between divided first ordered last costSplit
        dsimp only at costSplit ⊢
        rw [ends_ite]
        constructor
        · intro below
          exact (ends_pure _ _ _).mpr ⟨lt - 1 - left, by omega, wrote.trans divided, rfl, from_, by dsimp only; omega,
            by dsimp only; omega, by dsimp only; omega⟩
        · intro notBelow
          rw [ends_ite]
          constructor
          · intro above
            exact (ends_pure _ _ _).mpr ⟨right - (gt + 1), by omega, wrote.trans divided, rfl, above, upTo, reach,
              by dsimp only; omega⟩
          · intro among
            exact (ends_pure _ _ _).mpr (done parted between (wrote.trans divided) (by omega))
    · intro settled
      exact (ends_pure _ _ _).mpr (done now mid wrote (by omega))

theorem ends_partialSort_counted {count : Nat} (shown : Shown s heap) (within : count ≤ s.len)
    {post : Nat × C -> SpanMem α -> Prop}
    (done : forall after later, Wrote s heap later ->
      after.1 ≤ ctx.1 + (selectCost s.len + count * (6 * Nat.log2 count + 8)) -> post after later) :
    Ends (partialSort s count (counted cmp) ctx) heap post := by
  simp only [partialSort, ends_bind, ends_assertSpan shown.asserts, ends_require, within, true_and]
  rw [ends_ite]
  constructor
  · intro few
    exact (ends_pure _ _ _).mpr (done ctx heap (Wrote.refl shown) (Nat.le_add_right _ _))
  · intro some_
    rw [ends_ite]
    constructor
    · intro all
      have same : count = s.len := Nat.le_antisymm within all
      apply ends_sort_counted shown
      intro after later wrote cost
      exact done after later wrote (by rw [same]; omega)
    · intro fewer
      have front : 0 + count ≤ s.len := by omega
      rw [ends_bind]
      apply ends_nthElem_counted shown (by omega)
      intro mid between selected costSelect
      rw [ends_bind, ends_sub shown.asserts front]
      apply ends_sort_counted (selected.shown.part front)
      intro after later sorted cost
      refine done after later (selected.trans (Wrote.of_part selected.shown front sorted)) ?_
      change after.1 ≤ mid.1 + count * (6 * Nat.log2 count + 8) at cost
      omega

/-- Whatever the comparator answers, and however bad the pivots are: the sort and the selections ask it
no more than n log n times, and insertion sort no more than once for each pair. -/
theorem Holds.sorts_within {elems : List α} {nth count : Nat} (holds : Holds heap.blocks s elems) (cmp : Cmp α C) (ctx : C)
    (inside : nth < elems.length) (within : count ≤ elems.length) :
    Ends (sort s (counted cmp) (0, ctx)) heap (fun after _ =>
      after.1 ≤ elems.length * (6 * Nat.log2 elems.length + 8)) ∧
    Ends (nthElem s nth (counted cmp) (0, ctx)) heap (fun after _ =>
      after.1 ≤ elems.length * (8 * Nat.log2 elems.length + 8) + 22 * Nat.log2 elems.length) ∧
    Ends (partialSort s count (counted cmp) (0, ctx)) heap (fun after _ =>
      after.1 ≤ elems.length * (14 * Nat.log2 elems.length + 16) + 22 * Nat.log2 elems.length) ∧
    Ends (insertionSort s (counted cmp) (0, ctx)) heap fun after _ =>
      after.1 ≤ elems.length * (elems.length - 1) / 2 := by
  have shown : Shown s heap := ⟨elems, holds⟩
  have length := holds.length
  have select : selectCost s.len = s.len * (8 * Nat.log2 s.len + 8) + 22 * Nat.log2 s.len := by
    unfold selectCost
    ring
  rw [length] at inside within ⊢
  refine ⟨?_, ?_, ?_, ?_⟩
  · exact ends_sort_counted shown fun after _ _ cost => by omega
  · exact ends_nthElem_counted shown inside fun after _ _ cost => by omega
  · apply ends_partialSort_counted shown within
    intro after _ _ cost
    have logs : Nat.log2 count ≤ Nat.log2 s.len := log2_mono within
    have front : count * (6 * Nat.log2 count + 8) ≤ s.len * (6 * Nat.log2 s.len + 8) :=
      Nat.mul_le_mul within (by omega)
    have total : s.len * (14 * Nat.log2 s.len + 16) =
        s.len * (8 * Nat.log2 s.len + 8) + s.len * (6 * Nat.log2 s.len + 8) := by ring
    omega
  · exact ends_insertionSort_counted shown fun after _ _ cost => by omega

theorem sorts_within_row : Ends (sort (rowSpan 0 4) (counted byValue) (0, ())) (rowsMem [[7, 9, 8, 9]])
    fun after _ => after.1 ≤ 4 * (6 * Nat.log2 4 + 8) := by
  have row : Holds (rowsMem [[7, 9, 8, 9]]).blocks (rowSpan 0 4) [7, 9, 8, 9] :=
    rowsMem_holds rfl (show [7, 9, 8, 9].length < sizeRange by decide)
  exact (@Holds.sorts_within _ _ _ _ _ 2 3 row byValue () (by decide) (by decide)).1

/-- Whatever the comparator answers: a heap is made in linear time, an elem goes in and comes out with a call
or two for each level, and a heap is sorted with n log n calls. -/
theorem Holds.heaps_within {elems : List α} (holds : Holds heap.blocks s elems) (cmp : Cmp α C) (ctx : C) :
    Ends (makeHeap s (counted cmp) (0, ctx)) heap (fun after _ => after.1 ≤ 2 * elems.length) ∧
    Ends (sortHeap s (counted cmp) (0, ctx)) heap (fun after _ =>
      after.1 ≤ 2 * elems.length * Nat.log2 elems.length) ∧
    (0 < elems.length ->
      Ends (pushHeap s (counted cmp) (0, ctx)) heap (fun after _ => after.1 ≤ Nat.log2 elems.length) ∧
      Ends (popHeap s (counted cmp) (0, ctx)) heap fun after _ => after.1 ≤ 2 * Nat.log2 elems.length) := by
  have shown : Shown s heap := ⟨elems, holds⟩
  rw [holds.length]
  refine ⟨?_, ?_, fun some_ => ⟨?_, ?_⟩⟩
  · exact ends_makeHeap_counted shown fun after _ _ cost => by omega
  · apply ends_sortHeap_counted shown
    intro after _ _ cost
    have same : s.len * (2 * Nat.log2 s.len) = 2 * s.len * Nat.log2 s.len := by ring
    omega
  · exact ends_pushHeap_counted shown some_ fun after _ _ cost => by omega
  · exact ends_popHeap_counted shown some_ fun after _ _ cost => by omega

theorem heaps_within_row : Ends (makeHeap (rowSpan 0 4) (counted byValue) (0, ())) (rowsMem [[7, 9, 8, 9]])
    fun after _ => after.1 ≤ 8 := by
  have row : Holds (rowsMem [[7, 9, 8, 9]]).blocks (rowSpan 0 4) [7, 9, 8, 9] :=
    rowsMem_holds rfl (show [7, 9, 8, 9].length < sizeRange by decide)
  exact (row.heaps_within byValue ()).1

end Span
end TerseDsa
