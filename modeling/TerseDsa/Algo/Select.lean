import TerseDsa.Algo.Quicksort

namespace TerseDsa

open Foundation Run

/-!
# Selecting

The elem that belongs at an index, and the smallest elems in order.  Outside
the range that is still searched nothing is out of place: its two ends are
cuts.  So it makes no difference how the search ends, with a range of one elem,
among the elems alike to a pivot, or with the range sorted.
-/

namespace Span

variable {α C : Type} {heap : SpanMem α} {s : Span} {elems : List α} {cmp : Cmp α C} {ctx : C}
  {order : α -> α -> Int} {nth count : Nat}

theorem ends_nthElem (holds : Holds heap.blocks s elems) (inside : nth < elems.length) {post : C -> SpanMem α -> Prop}
    (done : forall now ctx (later : SpanMem α), later.blocks = place heap.blocks s now -> now.Perm elems ->
      (forall order, cmp.Orders order -> Selects (Cmp.le order) nth now) -> post ctx later) :
    Ends (nthElem s nth cmp ctx) heap post := by
  have length := holds.length
  simp only [nthElem, ends_bind, ends_assertSpan (Over.asserts holds), ends_require,
    (by omega : nth < s.len), true_and]
  rw [ends_ite]
  constructor
  · intro short
    rw [ends_pure]
    refine done elems ctx heap holds.place_same.symm (List.Perm.refl _) fun order _ => ?_
    have whole : SortedIn (Cmp.le order) 0 1 elems := sortedIn_short (Nat.le_refl 1)
    exact selects_of_sortedIn whole Cut.start (Cut.end_ (by omega)) (Nat.zero_le nth) (by omega)
  · intro long
    rw [ends_bind]
    apply ends_depthLimit (by omega)
    intro depth
    refine ends_loop (fun rounds (vars : Selecting C) mid => exists now,
      mid.blocks = place heap.blocks s now ∧ now.Perm elems ∧ vars.left ≤ nth ∧ nth ≤ vars.right ∧
        vars.right < elems.length ∧ rounds = vars.right - vars.left ∧ forall order, cmp.Orders order ->
          Cut (Cmp.le order) vars.left now ∧ Cut (Cmp.le order) (vars.right + 1) now) ?_ (n := s.len - 1)
      ⟨elems, holds.place_same.symm, List.Perm.refl _, Nat.zero_le _, by dsimp only; omega, by dsimp only; omega, rfl,
        fun order _ => ⟨Cut.start, Cut.end_ (by dsimp only; omega)⟩⟩ (by omega)
    rintro rounds ⟨left, right, depth, ctx⟩ mid ⟨now, same, perm, from_, upTo, last, rfl, cuts⟩
    dsimp only at from_ upTo last cuts ⊢
    have lengthNow := perm.length_eq
    have holdsNow : Holds mid.blocks s now := by
      rw [same]
      exact holds.placed lengthNow
    have stretch : HoldsIn mid.blocks s left (right + 1) (now.map some) now := holdsNow.holdsIn (by omega)
    rw [ends_ite]
    constructor
    · intro more
      rw [ends_ite]
      constructor
      · intro _
        rw [ends_bind]
        apply ends_closedRange stretch (Nat.le_of_lt more)
        intro range stretch ranged
        rw [ends_bind]
        apply ends_sort ranged.holds
        intro next ctx later put permNext sorts
        rcases ranged.back next permNext with ⟨out, back, rearranged, inOrder⟩
        rw [placeIn_map rearranged.length rearranged.outside] at back
        rw [ends_pure]
        refine done out ctx later ?_ (rearranged.perm.trans perm) fun order orders => ?_
        · rw [put, back, same, holds.place_place lengthNow (rearranged.length.trans lengthNow)]
        · rcases cuts order orders with ⟨front, behind⟩
          exact selects_of_sortedIn (inOrder _ (sorts order orders))
            (front.rearranged rearranged (Or.inl (Nat.le_refl _)) (by omega))
            (behind.rearranged rearranged (Or.inr (Nat.le_refl _)) (by omega)) from_ (by omega)
      · intro _
        rw [ends_bind]
        apply ends_ninther stretch more
        intro pivotIdx ctx above below
        rw [ends_bind]
        apply ends_partition3 stretch above below (by omega)
        intro out lt gt ctx later put rearranged first ordered end_ divides
        rw [placeIn_map rearranged.length rearranged.outside] at put
        have permOut := rearranged.perm.trans perm
        have lengthOut := permOut.length_eq
        have placed : later.blocks = place heap.blocks s out := by
          rw [put, same, holds.place_place lengthNow lengthOut]
        have kept : forall order, cmp.Orders order -> Cut (Cmp.le order) left out ∧ Cut (Cmp.le order) (right + 1) out :=
          fun order orders => ⟨(cuts order orders).1.rearranged rearranged (Or.inl (Nat.le_refl _)) (by omega),
            (cuts order orders).2.rearranged rearranged (Or.inr (Nat.le_refl _)) (by omega)⟩
        rw [ends_ite]
        constructor
        · intro before
          dsimp only at before
          rw [ends_pure]
          refine ⟨lt - 1 - left, by omega, out, placed, permOut, from_, by dsimp only; omega, by dsimp only; omega, rfl,
            fun order orders => ⟨(kept order orders).1, ?_⟩⟩
          dsimp only
          rw [Nat.sub_add_cancel (by omega)]
          exact (divides order orders).cut_lt orders.preorder (kept order orders).1 (kept order orders).2
        · intro notBefore
          rw [ends_ite]
          constructor
          · intro behind
            dsimp only at behind
            rw [ends_pure]
            refine ⟨right - (gt + 1), by omega, out, placed, permOut, by dsimp only; omega, upTo, last, rfl,
              fun order orders => ⟨?_, (kept order orders).2⟩⟩
            exact (divides order orders).cut_gt orders.preorder (kept order orders).1 (kept order orders).2
          · intro notBehind
            dsimp only at notBefore notBehind
            rw [ends_pure]
            refine done out ctx later placed permOut fun order orders => ?_
            rcases kept order orders with ⟨front, back⟩
            have divided := divides order orders
            exact selects_of_sortedIn (divided.sorted_among orders.preorder)
              (divided.cut_lt orders.preorder front back) (divided.cut_gt orders.preorder front back) (by omega) (by omega)
    · intro one
      rw [ends_pure]
      refine done now ctx mid same perm fun order orders => ?_
      exact selects_of_sortedIn (sortedIn_short (by omega)) (cuts order orders).1 (cuts order orders).2 from_ (by omega)

theorem ends_partialSort (holds : Holds heap.blocks s elems) (within : count ≤ elems.length)
    {post : C -> SpanMem α -> Prop}
    (done : forall now ctx (later : SpanMem α), later.blocks = place heap.blocks s now -> now.Perm elems ->
      (forall order, cmp.Orders order -> (now.take count).Pairwise (Cmp.le order) ∧ Cut (Cmp.le order) count now) ->
      post ctx later) :
    Ends (partialSort s count cmp ctx) heap post := by
  have length := holds.length
  simp only [partialSort, ends_bind, ends_assertSpan (Over.asserts holds), ends_require,
    (by omega : count ≤ s.len), true_and]
  rw [ends_ite]
  constructor
  · intro few
    rw [ends_pure]
    refine done elems ctx heap holds.place_same.symm (List.Perm.refl _) fun order orders => ?_
    rcases Nat.eq_zero_or_pos count with rfl | some_
    · exact ⟨List.Pairwise.nil, Cut.start⟩
    · refine ⟨pairwise_short ?_, Cut.end_ (by omega)⟩
      rw [List.length_take]
      omega
  · intro more
    rw [ends_ite]
    constructor
    · intro all
      apply ends_sort holds
      intro now ctx later put perm sorts
      refine done now ctx later put perm fun order orders => ⟨?_, Cut.end_ (by rw [perm.length_eq]; omega)⟩
      exact (sorts order orders).sublist (List.take_sublist _ _)
    · intro some_
      rw [ends_bind]
      apply ends_nthElem holds (by omega)
      intro mid ctx between put perm selects
      have lengthMid := perm.length_eq
      have split : mid = [] ++ mid.take count ++ mid.drop count := (List.take_append_drop count mid).symm
      have size : (mid.take count).length = count := by
        rw [List.length_take]
        omega
      have whole : Holds between.blocks s ([] ++ mid.take count ++ mid.drop count) := by
        rw [← split, put]
        exact holds.placed lengthMid
      have part := whole.part
      rw [size, List.length_nil] at part
      rw [ends_bind, ends_sub (Over.asserts holds) (by omega)]
      apply ends_sort part
      intro front ctx later putFront permFront sorts
      have placed := whole.place_part permFront.length_eq
      rw [size, List.length_nil, List.nil_append] at placed
      have rearranged : Rearranged 0 count mid (front ++ mid.drop count) := by
        have stretch : Rearranged ([] : List α).length (([] : List α).length + (mid.take count).length)
            ([] ++ mid.take count ++ mid.drop count) ([] ++ front ++ mid.drop count) := Rearranged.of_part permFront
        rwa [← split, size, List.length_nil, Nat.zero_add] at stretch
      refine done (front ++ mid.drop count) ctx later ?_ (rearranged.perm.trans perm) fun order orders => ⟨?_, ?_⟩
      · rw [putFront, placed, put, holds.place_place lengthMid (rearranged.length.trans lengthMid)]
      · rw [List.take_append_of_le_length (Nat.le_of_eq (permFront.length_eq.trans size).symm), List.take_of_length_le
          (Nat.le_of_eq (permFront.length_eq.trans size))]
        exact sorts order orders
      · exact ((selects order orders).cut orders.preorder (by omega)).rearranged rearranged (Or.inr (Nat.le_refl _))
          (by omega)

/-! ## On every span -/

/-- How elems are selected by the order: at the index is one alike to the one that the sorted elems have
there, with none greater before it and none less behind it; in front are as many elems as were asked
for, sorted, and none of them is greater than any behind them. -/
structure Selections (heap : SpanMem α) (s : Span) (elems : List α) (cmp : Cmp α C) (order : α -> α -> Int)
    (ctx : C) : Prop where
  nth : forall nth, nth < elems.length -> Ends (nthElem s nth cmp ctx) heap fun _ later => exists before v after,
    later.blocks = place heap.blocks s (before ++ v :: after) ∧ (before ++ v :: after).Perm elems ∧
      before.length = nth ∧ (forall x, x ∈ before -> Cmp.le order x v) ∧ (forall y, y ∈ after -> Cmp.le order v y) ∧
      forall sorted : List α, sorted.Perm elems -> sorted.Pairwise (Cmp.le order) ->
        exists w, sorted[nth]? = some w ∧ order v w = 0
  least : forall count, count ≤ elems.length -> Ends (partialSort s count cmp ctx) heap fun _ later =>
    exists front back, later.blocks = place heap.blocks s (front ++ back) ∧ (front ++ back).Perm elems ∧
      front.length = count ∧ front.Pairwise (Cmp.le order) ∧
      forall x, x ∈ front -> forall y, y ∈ back -> Cmp.le order x y

theorem Holds.selections (holds : Holds heap.blocks s elems) (orders : cmp.Orders order) (ctx : C) :
    Selections heap s elems cmp order ctx := by
  constructor
  · intro nth inside
    apply ends_nthElem holds inside
    intro now _ later put perm selects
    have within : nth < now.length := perm.length_eq.symm ▸ inside
    have split : now = now.take nth ++ now[nth] :: now.drop (nth + 1) := by
      rw [← List.drop_eq_getElem_cons within, List.take_append_drop]
    have here : now[nth]? = some now[nth] := List.getElem?_eq_getElem within
    have selected := selects order orders
    refine ⟨now.take nth, now[nth], now.drop (nth + 1), split ▸ put, split ▸ perm, ?_, ?_, ?_, ?_⟩
    · rw [List.length_take, Nat.min_eq_left (Nat.le_of_lt within)]
    · exact fun x member => (selected _ here).1.mem_take member
    · exact fun y member => (selected _ here).2.mem_drop member
    · intro sorted permSorted inOrder
      have reaches : nth < sorted.length := permSorted.length_eq.symm ▸ inside
      have there : sorted[nth]? = some sorted[nth] := List.getElem?_eq_getElem reaches
      refine ⟨_, there, ?_⟩
      have ⟨le, ge⟩ := selected.alike_sorted orders.preorder (permSorted.trans perm.symm) inOrder here there
      have signs := orders.antisymm now[nth] sorted[nth]
      have signs' := orders.antisymm sorted[nth] now[nth]
      unfold Cmp.le at le ge
      omega
  · intro count within
    apply ends_partialSort holds within
    intro now _ later put perm sorts
    have ⟨inOrder, cut⟩ := sorts order orders
    have split : now = now.take count ++ now.drop count := (List.take_append_drop count now).symm
    refine ⟨now.take count, now.drop count, split ▸ put, split ▸ perm, ?_, inOrder,
      fun x inFront y behind => cut.le_of_mem inFront behind⟩
    rw [List.length_take, perm.length_eq, Nat.min_eq_left within]

theorem Holds.selections_row : Ends (nthElem (rowSpan 0 3) 1 byValue ()) (rowsMem [[7, 9, 8]]) fun _ later =>
    exists before v after, later.blocks = place (rowsMem [[7, 9, 8]]).blocks (rowSpan 0 3) (before ++ v :: after) ∧
      before.length = 1 ∧ v = 8 := by
  have small : [7, 9, 8].length < sizeRange := by decide
  have holds : Holds (rowsMem [[7, 9, 8]]).blocks (rowSpan 0 3) [7, 9, 8] := rowsMem_holds rfl small
  apply ((Holds.selections holds byValue_orders ()).nth 1 (by decide)).mono
  rintro _ later ⟨before, v, after, put, _, length, _, _, alike⟩
  rcases alike [7, 8, 9] (by decide) (by decide) with ⟨w, there, same⟩
  have isEight : 8 = w := Option.some.inj there
  exact ⟨before, v, after, put, length, by omega⟩

end Span
end TerseDsa
