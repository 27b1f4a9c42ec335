import TerseDsa.Algo.Sort
import TerseDsa.Foundation.Merging

namespace TerseDsa

open Foundation Run

/-!
# Insertion sort

Both ways to bring an elem to its slot, by swaps and by one move with the elem
held, leave the same elems, and where the comparator orders them the sort is
stable.
-/

namespace Span

variable {α C : Type} {heap : SpanMem α} {s : Span} {elems front pre mid rest old left right : List α} {val : α}
  {cmp : Cmp α C} {ctx : C} {i j : Nat}

/-- The slot is behind the elems that are not greater, where those before are sorted. -/
theorem ends_insertionSlot (holds : Holds heap.blocks s (front ++ val :: rest)) (here : i = front.length)
    {post : Nat × C -> SpanMem α -> Prop}
    (done : forall pre mid ctx, front = pre ++ mid -> (forall order, cmp.Orders order ->
      front.Pairwise (Cmp.le order) -> (forall x, x ∈ pre -> Cmp.le order x val) ∧
        forall y, y ∈ mid -> ¬ Cmp.le order y val) -> post (pre.length, ctx) heap) :
    Ends (insertionSlot s i cmp ctx) heap post := by
  subst here
  rw [insertionSlot, ends_bind, ends_get_at holds rfl]
  refine ends_loop (fun rounds (vars : Nat × C) now => now = heap ∧ vars.1 ≤ front.length ∧ rounds = vars.1 ∧
    forall order, cmp.Orders order -> forall y, y ∈ front.drop vars.1 -> ¬ Cmp.le order y val) ?_
    ⟨rfl, Nat.le_refl _, rfl, fun _ _ y member => ?_⟩ (Nat.lt_succ_self _)
  · rintro slot ⟨_, ctx⟩ _ ⟨rfl, within, rfl, greater⟩
    dsimp only at within greater ⊢
    have split : front = front.take slot ++ front.drop slot := (List.take_append_drop slot front).symm
    have length : (front.take slot).length = slot := by rw [List.length_take, Nat.min_eq_left within]
    rw [ends_ite]
    constructor
    · intro some_
      have inside : slot - 1 < front.length := by omega
      have total : slot - 1 < (front ++ val :: rest).length := by
        rw [List.length_append]
        omega
      have prev : (front ++ val :: rest)[slot - 1] = front[slot - 1] := List.getElem_append_left inside
      rw [ends_bind, ends_get holds total, prev, ends_ite]
      constructor
      · intro valFirst
        rw [ends_pure]
        refine ⟨slot - 1, by omega, rfl, by dsimp only; omega, rfl, fun order orders y member => ?_⟩
        rw [List.drop_eq_getElem_cons inside, Nat.sub_add_cancel some_] at member
        rcases List.mem_cons.mp member with rfl | later
        · exact (orders.asks _ _ _).mp valFirst
        · exact greater order orders y later
      · intro stays
        rw [ends_pure]
        have result := done (front.take slot) (front.drop slot) (rightGoesFirst cmp front[slot - 1] val ctx).2 split
        rw [length] at result
        refine result fun order orders sorted => ⟨fun x member => ?_, greater order orders⟩
        have before : Cmp.le order front[slot - 1] val :=
          Decidable.of_not_not fun not_ => stays ((orders.asks _ _ _).mpr not_)
        -- the elem at the slot is the last of those in front, so the others are not behind it
        rcases List.mem_iff_getElem.mp member with ⟨k, small, rfl⟩
        rw [length] at small
        rw [List.getElem_take]
        rcases Nat.eq_or_lt_of_le (by omega : k ≤ slot - 1) with rfl | earlier
        · exact before
        · exact orders.trans (List.pairwise_iff_getElem.mp sorted k (slot - 1) (by omega) inside earlier) before
    · intro none_
      have first : slot = 0 := by omega
      subst first
      rw [ends_pure]
      exact done [] front ctx rfl fun order orders _ =>
        ⟨fun x member => absurd member List.not_mem_nil, greater order orders⟩
  · rw [List.drop_length] at member
    exact absurd member List.not_mem_nil

/-- The elem goes down to its slot, one swap after another. -/
theorem ends_swapDown (holds : Holds heap.blocks s (pre ++ mid ++ val :: rest)) (here : i = pre.length + mid.length)
    (slot : j = pre.length) {post : Unit -> SpanMem α -> Prop}
    (done : forall later : SpanMem α, later.blocks = place heap.blocks s (pre ++ val :: mid ++ rest) -> post () later) :
    Ends (swapDown α s i j) heap post := by
  subst here slot
  have sizes : forall {passed gone}, mid = passed ++ gone ->
      (pre ++ passed ++ val :: (gone ++ rest)).length = (pre ++ mid ++ val :: rest).length := by
    rintro passed gone rfl
    simp only [List.length_append, List.length_cons]
    omega
  rw [swapDown]
  refine ends_loop (fun rounds k now => exists passed gone, mid = passed ++ gone ∧
    k = pre.length + passed.length ∧ rounds = passed.length ∧
      now.blocks = place heap.blocks s (pre ++ passed ++ val :: (gone ++ rest))) ?_
    ⟨mid, [], (List.append_nil mid).symm, rfl, rfl, holds.place_same.symm⟩ (by omega)
  rintro rounds _ now ⟨passed, gone, split, rfl, rfl, same⟩
  have holdsNow : Holds now.blocks s (pre ++ passed ++ val :: (gone ++ rest)) := by
    rw [same]
    exact holds.placed (sizes split)
  rw [ends_ite]
  constructor
  · intro more
    rcases List.eq_nil_or_concat' passed with rfl | ⟨init, last, rfl⟩
    · exact absurd more (Nat.lt_irrefl _)
    · have next : mid = init ++ last :: gone := by rw [split, List.append_assoc, List.singleton_append]
      have place_ : pre.length + (init ++ [last]).length = (pre ++ init).length + 1 := by
        simp only [List.length_append, List.length_singleton]
        omega
      have shape : pre ++ (init ++ [last]) ++ val :: (gone ++ rest) =
          (pre ++ init) ++ last :: ([] ++ val :: (gone ++ rest)) := by
        simp only [List.append_assoc, List.singleton_append, List.nil_append]
      have inside : (pre ++ init).length + 1 < (pre ++ (init ++ [last]) ++ val :: (gone ++ rest)).length := by
        simp only [List.length_append, List.length_cons]
        omega
      rw [place_, Nat.add_sub_cancel, ends_bind]
      apply ends_swapElems holdsNow (Nat.lt_of_succ_lt inside) inside
      intro later swapped
      have swap : exchanged ((pre ++ init) ++ last :: ([] ++ val :: (gone ++ rest))) (pre ++ init).length
          ((pre ++ init).length + 1) = (pre ++ init) ++ val :: ([] ++ last :: (gone ++ rest)) :=
        exchanged_two (pre ++ init) [] (gone ++ rest) last val
      rw [shape, swap, List.nil_append] at swapped
      rw [ends_pure]
      refine ⟨init.length, ?_, init, last :: gone, next, List.length_append, rfl, ?_⟩
      · rw [List.length_append, List.length_singleton]
        exact Nat.lt_succ_self _
      · rw [swapped, same]
        exact holds.place_place (sizes split) (sizes next)
  · intro reached
    have none_ : passed = [] := List.eq_nil_of_length_eq_zero (by omega)
    subst none_
    rw [List.nil_append] at split
    subst split
    rw [ends_pure]
    apply done
    rw [same, List.append_nil, List.append_assoc]
    rfl

/-- A run of elems is moved to other slots, which it may share some of. -/
theorem ends_moveElems {left' right' : List α} {dest from_ count : Nat}
    (holds : Holds heap.blocks s (left ++ mid ++ right)) (same : left ++ mid ++ right = left' ++ old ++ right')
    (there : from_ = left.length) (here : dest = left'.length) (many : count = mid.length)
    (length : old.length = mid.length) (some_ : mid ≠ []) {post : Unit -> SpanMem α -> Prop}
    (done : forall later : SpanMem α, later.blocks = place heap.blocks s (left' ++ mid ++ right') -> post () later) :
    Ends (moveElems α s dest from_ count) heap post := by
  subst there here many
  have total := holds.length
  have positive := List.length_pos_of_ne_nil some_
  have sizes := congrArg List.length same
  simp only [List.length_append] at total sizes
  have slots := holds.slots
  have cells : (left ++ mid ++ right).map some = left'.map some ++ old.map some ++ right'.map some := by
    rw [same, List.map_append, List.map_append]
  have lengths : (left.map some).length = left.length ∧ (mid.map some).length = mid.length ∧
      (left'.map some).length = left'.length := ⟨List.length_map _, List.length_map _, List.length_map _⟩
  have readable : Slice.Shows heap.blocks s.toSlice (left.map some ++ mid.map some ++ right.map some) := by
    rwa [← List.map_append, ← List.map_append]
  have nonempty : left.map some ++ mid.map some ++ right.map some ≠ [] := by
    intro empty
    have none_ := congrArg List.length empty
    simp only [List.length_append, List.length_map, List.length_nil] at none_
    omega
  simp only [moveElems, ends_bind, ends_assertSpan (Over.asserts holds), ends_require,
    (by omega : left'.length < s.len), (by omega : left.length < s.len), true_and]
  rw [cells] at slots
  rw [← lengths.1, ← lengths.2.1, ← lengths.2.2, Slice.ends_readRun readable nonempty]
  apply Slice.ends_writeRun slots (by rw [List.length_map, List.length_map, length])
  · rw [← cells, List.map_append, List.map_append]
    exact nonempty
  · intro later put
    apply done later
    rw [put, place, List.map_append, List.map_append]

theorem ends_putElem (holds : Holds heap.blocks s elems) (inside : i < elems.length)
    {post : Unit -> SpanMem α -> Prop}
    (done : forall later : SpanMem α, later.blocks = place heap.blocks s (elems.set i val) -> post () later) :
    Ends (putElem s i val) heap post := by
  have below : i < s.len := holds.length ▸ inside
  simp only [putElem, ends_bind, ends_assertSpan (Over.asserts holds), ends_require, below, true_and]
  exact ends_setSlot holds inside done

/-- The elem is held while those from the slot on move up. -/
theorem ends_slideHeld (holds : Holds heap.blocks s (pre ++ mid ++ val :: rest)) (here : i = pre.length + mid.length)
    (slot : j = pre.length) {post : Unit -> SpanMem α -> Prop}
    (done : forall later : SpanMem α, later.blocks = place heap.blocks s (pre ++ val :: mid ++ rest) -> post () later) :
    Ends (slideHeld α s i j) heap post := by
  subst here slot
  have sizes : (pre ++ val :: mid ++ rest).length = (pre ++ mid ++ val :: rest).length := by
    simp only [List.length_append, List.length_cons]
    omega
  rw [slideHeld, ends_ite]
  constructor
  · intro stays
    have none_ : mid = [] := List.eq_nil_of_length_eq_zero (by omega)
    subst none_
    rw [ends_pure]
    apply done
    rw [List.append_nil] at holds
    rw [List.append_assoc, List.singleton_append, holds.place_same]
  · intro moves
    cases mid with
    | nil => exact absurd rfl moves
    | cons first others =>
        have value : (pre ++ first :: others ++ val :: rest) = (pre ++ first :: others) ++ val :: rest := rfl
        rw [ends_bind, ends_get_at holds (by rw [List.length_append])]
        rw [ends_bind]
        have shape : pre ++ (first :: others) ++ val :: rest =
            (pre ++ [first]) ++ (others ++ [val]) ++ rest := by
          simp only [List.append_assoc, List.cons_append, List.nil_append]
        apply ends_moveElems holds shape rfl
        · rw [List.length_append, List.length_singleton]
        · rw [Nat.add_sub_cancel_left]
        · rw [List.length_append, List.length_singleton, List.length_cons]
        · exact List.cons_ne_nil _ _
        · intro mid moved
          have lengths : (pre ++ [first] ++ first :: others ++ rest).length =
              (pre ++ first :: others ++ val :: rest).length := by
            simp only [List.length_append, List.length_cons, List.length_nil]
            omega
          have holdsMid : Holds mid.blocks s (pre ++ [first] ++ first :: others ++ rest) := by
            rw [moved]
            exact holds.placed lengths
          apply ends_putElem holdsMid
          · rw [lengths, List.length_append, List.length_append, List.length_cons]
            omega
          · intro later put
            apply done
            rw [put, moved, holds.place_place lengths (by rw [List.length_set, lengths])]
            congr 1
            rw [List.append_assoc, List.append_assoc, List.set_append_right _ _ (Nat.le_refl _), Nat.sub_self]
            simp only [List.cons_append, List.nil_append, List.set_cons_zero, List.append_assoc]

/-- Whatever the comparator answers, the elems are in another order; where it orders them the sort is
stable, whether the elems are held or swapped. -/
theorem ends_insertionSort (holds : Holds heap.blocks s elems) {post : C -> SpanMem α -> Prop}
    (done : forall now ctx (later : SpanMem α), later.blocks = place heap.blocks s now -> now.Perm elems ->
      (forall order, cmp.Orders order -> StableSort (Cmp.le order) elems now) -> post ctx later) :
    Ends (insertionSort s cmp ctx) heap post := by
  have length := holds.length
  have one : forall order, cmp.Orders order -> StableSort (Cmp.le order) (elems.take 1) (elems.take 1) := by
    refine fun order _ => ⟨List.Perm.refl _, ?_, fun _ => rfl⟩
    cases elems with
    | nil => exact List.Pairwise.nil
    | cons first others => exact List.pairwise_singleton _ _
  rw [insertionSort, ends_bind, ends_assertSpan (Over.asserts holds)]
  refine ends_loop (fun rounds (vars : Nat × C) now => exists sorted,
    now.blocks = place heap.blocks s (sorted ++ elems.drop vars.1) ∧ sorted.Perm (elems.take vars.1) ∧
      rounds = s.len - vars.1 ∧ forall order, cmp.Orders order ->
        StableSort (Cmp.le order) (elems.take vars.1) sorted) ?_ (n := s.len - 1)
    ⟨elems.take 1, by rw [List.take_append_drop, holds.place_same], List.Perm.refl _, rfl, one⟩ (by omega)
  rintro rounds ⟨i, ctx⟩ now ⟨sorted, same, perm, rfl, stable⟩
  dsimp only at same perm stable ⊢
  have whole : (sorted ++ elems.drop i).Perm elems := by
    have parts := perm.append_right (elems.drop i)
    rwa [List.take_append_drop] at parts
  rw [ends_ite]
  constructor
  · intro more
    rw [← length] at more
    have size : sorted.length = i := by
      rw [perm.length_eq, List.length_take, Nat.min_eq_left (Nat.le_of_lt more)]
    have holdsNow : Holds now.blocks s (sorted ++ elems[i] :: elems.drop (i + 1)) := by
      rw [same, ← List.drop_eq_getElem_cons more]
      exact holds.placed whole.length_eq
    rw [ends_bind]
    apply ends_insertionSlot holdsNow size.symm
    rintro pre mid ctx rfl finds
    rw [List.length_append] at size
    have input : elems.take (i + 1) = elems.take i ++ [elems[i]] := List.take_succ_eq_append_getElem more
    have permNext : (pre ++ elems[i] :: mid).Perm (elems.take (i + 1)) := by
      rw [input]
      exact List.perm_middle.trans ((perm.cons _).trans (List.perm_append_singleton _ _).symm)
    have wholeNext : (pre ++ elems[i] :: mid ++ elems.drop (i + 1)).Perm elems := by
      have parts := permNext.append_right (elems.drop (i + 1))
      rwa [List.take_append_drop] at parts
    have next : forall later : SpanMem α,
        later.blocks = place now.blocks s (pre ++ elems[i] :: mid ++ elems.drop (i + 1)) ->
        exists m, m < s.len - i ∧ exists sorted, later.blocks = place heap.blocks s (sorted ++ elems.drop (i + 1)) ∧
          sorted.Perm (elems.take (i + 1)) ∧ m = s.len - (i + 1) ∧ forall order, cmp.Orders order ->
            StableSort (Cmp.le order) (elems.take (i + 1)) sorted := by
      intro later put
      refine ⟨s.len - (i + 1), by omega, pre ++ elems[i] :: mid, ?_, permNext, rfl, fun order orders => ?_⟩
      · rw [put, same, holds.place_place whole.length_eq wholeNext.length_eq]
      · have before := stable order orders
        have found := finds order orders before.sorted
        rw [input]
        exact before.insert orders.preorder found.1 found.2
    rw [ends_ite]
    constructor
    · intro _
      rw [ends_bind]
      apply ends_swapDown holdsNow size.symm rfl
      intro later put
      rw [ends_pure]
      exact next later put
    · intro _
      rw [ends_bind]
      apply ends_slideHeld holdsNow size.symm rfl
      intro later put
      rw [ends_pure]
      exact next later put
  · intro all
    have past : elems.length ≤ i := by omega
    rw [List.drop_eq_nil_of_le past, List.append_nil] at same whole
    rw [List.take_of_length_le past] at stable
    rw [ends_pure]
    exact done sorted ctx now same whole stable

end Span
end TerseDsa
