import TerseDsa.Algo.Merge

namespace TerseDsa

open Foundation Run

/-!
# Merging in place

Whether there is memory for the shorter run or not, the runs of a span are
merged, and nothing else in memory has changed when the merge is over.
-/

namespace Span

variable {α C : Type} {heap : SpanMem α} {s : Span} {left right out : List α} {cmp : Cmp α C} {ctx : C}
  {mid bound : Nat}

/-- The output has the elems of both runs, and if the comparator orders them
and the runs are sorted it is their stable sort. -/
structure Merges (cmp : Cmp α C) (left right out : List α) : Prop where
  perm : out.Perm (left ++ right)
  stable : forall order, cmp.Orders order -> left.Pairwise (Cmp.le order) -> right.Pairwise (Cmp.le order) ->
    StableSort (Cmp.le order) (left ++ right) out

namespace Merges

theorem mergeBy : Merges cmp left right (mergeBy (rightGoesFirst cmp) left right ctx).1 :=
  ⟨mergeBy_perm, fun _ orders sortedLeft sortedRight =>
    mergeBy_stableSort orders.preorder orders.asks sortedLeft sortedRight⟩

theorem mergeBackBy : Merges cmp left right (mergeBackBy (rightGoesFirst cmp) left right ctx).1 :=
  ⟨mergeBackBy_perm, fun _ orders sortedLeft sortedRight =>
    mergeBackBy_stableSort orders.preorder orders.asks sortedLeft sortedRight⟩

theorem of_nil (empty : left = [] ∨ right = []) : Merges cmp left right (left ++ right) :=
  ⟨List.Perm.refl _, fun _ _ sortedLeft sortedRight => stableSort_of_nil sortedLeft sortedRight empty⟩

theorem length (merges : Merges cmp left right out) : out.length = (left ++ right).length := merges.perm.length_eq

end Merges

/-! ## With memory -/

/-- The buffer is a block of its own, and the merge leaves it behind with other slots. -/
theorem ends_mergeBuffered {buf : Addr} {tag : AlTag} {slots : List (Option α)}
    (holds : Holds heap.blocks s (left ++ right)) (atMid : left.length = mid) (someLeft : left ≠ [])
    (someRight : right ≠ []) (live : heap.blocks buf = some ⟨tag, slots⟩)
    (room : slots.length = min left.length right.length) (away : s.data ≠ some buf)
    {post : C -> SpanMem α -> Prop}
    (done : forall (ctx : C) (later : SpanMem α) (out : List α) (now : List (Option α)), Merges cmp left right out ->
      later.blocks = Function.update (place heap.blocks s out) buf (some ⟨tag, now⟩) -> post ctx later) :
    Ends (mergeBuffered s mid cmp ctx buf) heap post := by
  have total := holds.length
  rw [List.length_append] at total
  have rest : s.len - mid = right.length := by omega
  have fits := holds.fits
  -- one elem after another into the buffer, and the runs are where the merges expect them
  have parks : forall (run before after : List α), before ++ run ++ after = left ++ right -> run ≠ [] ->
      slots.length = run.length -> forall (post : Unit -> SpanMem α -> Prop),
      (forall later : SpanMem α,
        Holds later.blocks ⟨⟨some buf, 0, run.length⟩, s.elem⟩ run -> Holds later.blocks s (left ++ right) ->
        later.blocks = Function.update heap.blocks buf (some ⟨tag, run.map some⟩) -> post () later) ->
      Ends (copyElems α ⟨⟨some buf, 0, run.length⟩, s.elem⟩ 0 s before.length run.length) heap post := by
    intro run before after split some_ size post parked
    have few : run.length ≤ s.len := by
      have sizes := congrArg List.length split
      simp only [List.length_append] at sizes
      omega
    have small : s.elem.size * run.length < sizeRange := Nat.lt_of_le_of_lt (Nat.mul_le_mul_left _ few) fits
    have laid : Over heap.blocks ⟨⟨some buf, 0, run.length⟩, s.elem⟩ ([] ++ slots ++ []) := by
      rw [List.nil_append, List.append_nil]
      refine ⟨holds.isType, small, size, Or.inr ⟨buf, tag, [], [], rfl, ?_, rfl⟩⟩
      rw [live, List.nil_append, List.append_nil]
    have toRead : Holds heap.blocks s (before ++ run ++ after) := split.symm ▸ holds
    refine ends_copyElems laid toRead rfl rfl rfl size ?_ ?_ (Or.inl (Ne.symm away)) ?_
    · intro nothing
      rw [List.append_nil] at nothing
      rw [nothing, List.length_nil] at size
      exact some_ (List.eq_nil_of_length_eq_zero size.symm)
    · intro nothing
      exact some_ (List.append_eq_nil_iff.mp nothing).1
    · intro later put
      rw [List.nil_append, List.append_nil] at put laid
      have sizes : (run.map some).length = slots.length := by
        rw [List.length_map, size]
      apply parked later
      · rw [put]
        exact laid.filled sizes
      · rw [put]
        exact laid.beside holds sizes fun same => absurd same.symm away
      · have row : heap.blocks buf = some ⟨tag, [] ++ slots ++ []⟩ := by
          rw [live, List.nil_append, List.append_nil]
        rw [put, Slice.Shows.fill_eq rfl row rfl sizes, List.nil_append, List.append_nil]
  unfold mergeBuffered
  by_cases shorter : mid ≤ s.len - mid
  · rw [if_pos shorter, ends_bind, ← atMid]
    apply parks left [] right rfl someLeft (by omega)
    intro now holdsParked nowHolds written
    apply ends_mergeForward nowHolds holdsParked rfl rfl fun same => absurd same away
    intro later put
    rw [written] at put
    exact done _ later _ _ Merges.mergeBy (put.trans (Slice.fill_update away))
  · rw [if_neg shorter, ends_bind, rest, ← atMid]
    apply parks right left [] (List.append_nil _) someRight (by omega)
    intro now holdsParked nowHolds written
    apply ends_mergeBackward nowHolds holdsParked rfl rfl someRight fun same => absurd same away
    intro later put
    rw [written] at put
    exact done _ later _ _ Merges.mergeBackBy (put.trans (Slice.fill_update away))

/-! ## Without memory -/

/-- The inner pieces of the two runs change places; what is in front of the
cuts and what is behind them is merged apart. -/
theorem Merges.parts {left' right' first second : List α} (front : Merges cmp left right first)
    (back : Merges cmp left' right' second)
    (cuts : forall order, cmp.Orders order -> (left ++ left').Pairwise (Cmp.le order) ->
      (right ++ right').Pairwise (Cmp.le order) ->
      (forall x, x ∈ right -> forall y, y ∈ left' -> ¬ Cmp.le order y x) ∧
        forall x, x ∈ left -> forall y, y ∈ right' -> Cmp.le order x y) :
    Merges cmp (left ++ left') (right ++ right') (first ++ second) := by
  constructor
  · refine (front.perm.append back.perm).trans ?_
    rw [List.append_assoc, List.append_assoc]
    apply List.Perm.append_left
    rw [← List.append_assoc, ← List.append_assoc]
    exact List.perm_append_comm.append_right _
  · intro order orders sortedLeft sortedRight
    have halvesLeft := List.pairwise_append.mp sortedLeft
    have halvesRight := List.pairwise_append.mp sortedRight
    have apart := cuts order orders sortedLeft sortedRight
    exact StableSort.parts orders.preorder sortedLeft sortedRight
      (front.stable order orders halvesLeft.1 halvesRight.1) (back.stable order orders halvesLeft.2.1 halvesRight.2.1)
      apart.1 apart.2

/-- The left run is cut at an elem, and the right one where elems stop going before it. -/
theorem cuts_lower {left' : List α} {pivot : α} {place : Nat} (bounds : Bounds cmp false pivot right place) :
    forall order, cmp.Orders order -> (left ++ pivot :: left').Pairwise (Cmp.le order) ->
      (right.take place ++ right.drop place).Pairwise (Cmp.le order) ->
      (forall x, x ∈ right.take place -> forall y, y ∈ pivot :: left' -> ¬ Cmp.le order y x) ∧
        forall x, x ∈ left -> forall y, y ∈ right.drop place -> Cmp.le order x y := by
  intro order orders sortedLeft sortedRight
  rw [List.take_append_drop] at sortedRight
  have sides := bounds.2 order orders sortedRight
  have ⟨_, fromPivot, across⟩ := List.pairwise_append.mp sortedLeft
  constructor
  · intro x inFront y inBack le
    have below : order x pivot < 0 := sides.1 x inFront
    have pivotFirst : Cmp.le order pivot y := by
      rcases List.mem_cons.mp inBack with rfl | later
      · exact orders.preorder.refl y
      · exact (List.pairwise_cons.mp fromPivot).1 y later
    have pivotBelow : order pivot x ≤ 0 := orders.trans pivotFirst le
    have sign := orders.antisymm x pivot
    omega
  · intro x inFront y inBack
    have notBelow : ¬ order y pivot < 0 := sides.2 y inBack
    have toPivot : Cmp.le order x pivot := across x inFront pivot List.mem_cons_self
    have sign := orders.antisymm y pivot
    have pivotFirst : Cmp.le order pivot y := by
      have back := orders.antisymm pivot y
      unfold Cmp.le
      omega
    exact orders.trans toPivot pivotFirst

/-- The right run is cut at an elem, and the left one where elems start to go behind it. -/
theorem cuts_upper {right' : List α} {pivot : α} {place : Nat} (bounds : Bounds cmp true pivot left place) :
    forall order, cmp.Orders order -> (left.take place ++ left.drop place).Pairwise (Cmp.le order) ->
      (right ++ pivot :: right').Pairwise (Cmp.le order) ->
      (forall x, x ∈ right -> forall y, y ∈ left.drop place -> ¬ Cmp.le order y x) ∧
        forall x, x ∈ left.take place -> forall y, y ∈ pivot :: right' -> Cmp.le order x y := by
  intro order orders sortedLeft sortedRight
  rw [List.take_append_drop] at sortedLeft
  have sides := bounds.2 order orders sortedLeft
  have ⟨_, fromPivot, across⟩ := List.pairwise_append.mp sortedRight
  constructor
  · intro x inFront y inBack le
    exact sides.2 y inBack (orders.trans le (across x inFront pivot List.mem_cons_self))
  · intro x inFront y inBack
    have toPivot : Cmp.le order x pivot := sides.1 x inFront
    rcases List.mem_cons.mp inBack with rfl | later
    · exact toPivot
    · exact orders.trans toPivot ((List.pairwise_cons.mp fromPivot).1 y later)

/-- With this bound every span of fewer elems is merged. -/
def MergesBelow (bound len : Nat) (cmp : Cmp α C) : Prop :=
  forall {heap : SpanMem α} {part : Span} {left right : List α} {ctx : C} {post : C -> SpanMem α -> Prop},
    Holds heap.blocks part (left ++ right) -> part.len < len ->
    (forall ctx (later : SpanMem α) out, Merges cmp left right out ->
      later.blocks = place heap.blocks part out -> post ctx later) ->
    Ends (mergeInPlace bound part left.length cmp ctx) heap post

/-- The inner pieces are turned around, and both sides are merged by calls on fewer elems. -/
theorem ends_sides {left' right' : List α} {leftCut rightCut : Nat}
    (holds : Holds heap.blocks s ((left ++ left') ++ (right ++ right'))) (atMid : mid = left.length + left'.length)
    (atLeft : leftCut = left.length) (atRight : rightCut = mid + right.length)
    (shorter : MergesBelow bound s.len cmp)
    (someFront : 0 < left.length + right.length) (someBack : 0 < left'.length + right'.length)
    (cuts : forall order, cmp.Orders order -> (left ++ left').Pairwise (Cmp.le order) ->
      (right ++ right').Pairwise (Cmp.le order) ->
      (forall x, x ∈ right -> forall y, y ∈ left' -> ¬ Cmp.le order y x) ∧
        forall x, x ∈ left -> forall y, y ∈ right' -> Cmp.le order x y)
    {post : C -> SpanMem α -> Prop}
    (done : forall ctx (later : SpanMem α) out, Merges cmp (left ++ left') (right ++ right') out ->
      later.blocks = place heap.blocks s out -> post ctx later) :
    Ends (do
      rotate α (← sub s leftCut (rightCut - leftCut)) (mid - leftCut)
      let newMid := leftCut + (rightCut - mid)
      let ctx ← mergeInPlace bound (← sub s 0 newMid) leftCut cmp ctx
      mergeInPlace bound (← sub s newMid (s.len - newMid)) (rightCut - newMid) cmp ctx) heap post := by
  have total := holds.length
  simp only [List.length_append] at total
  subst atLeft
  have inner : rightCut - left.length = (left' ++ right).length := by
    rw [List.length_append]
    omega
  have turn : mid - left.length = left'.length := by omega
  have newMid : left.length + (rightCut - mid) = (left ++ right).length := by
    rw [List.length_append]
    omega
  have rest : s.len - (left ++ right).length = (left' ++ right').length := by
    simp only [List.length_append]
    omega
  have lastMid : rightCut - (left ++ right).length = left'.length := by
    rw [List.length_append]
    omega
  have asserts := Over.asserts holds
  have pieces : Holds heap.blocks s (left ++ (left' ++ right) ++ right') := by
    have same : (left ++ left') ++ (right ++ right') = left ++ (left' ++ right) ++ right' := by
      simp only [List.append_assoc]
    rwa [same] at holds
  simp only [inner, turn, newMid, rest, lastMid]
  have sizes : left.length + (left' ++ right).length ≤ s.len := by
    rw [List.length_append]
    omega
  rw [ends_bind, ends_sub asserts sizes, ends_bind]
  apply ends_rotate (Holds.part pieces)
  intro turned put
  have lengthTurned : (right ++ left').length = (left' ++ right).length := by
    simp only [List.length_append]
    omega
  rw [Holds.place_part pieces lengthTurned] at put
  have sameLength : (left ++ (right ++ left') ++ right').length = (left ++ (left' ++ right) ++ right').length := by
    simp only [List.length_append]
    omega
  have inFront : Holds turned.blocks s ([] ++ (left ++ right) ++ (left' ++ right')) := by
    have now := pieces.placed sameLength
    rw [← put] at now
    have same : left ++ (right ++ left') ++ right' = [] ++ (left ++ right) ++ (left' ++ right') := by
      simp only [List.nil_append, List.append_assoc]
    rwa [same] at now
  have few : 0 + (left ++ right).length ≤ s.len := by
    rw [List.length_append]
    omega
  rw [ends_bind, ends_sub asserts few, ends_bind]
  have fewer : (left ++ right).length < s.len := by
    rw [List.length_append]
    omega
  apply shorter (Holds.part inFront) fewer
  intro ctx merged first front putFront
  have frontPut : merged.blocks = place turned.blocks s ([] ++ first ++ (left' ++ right')) :=
    putFront.trans (Holds.place_part inFront front.length)
  have lengthFront := front.length
  have sameFront : ([] ++ first ++ (left' ++ right')).length = ([] ++ (left ++ right) ++ (left' ++ right')).length := by
    simp only [List.nil_append, List.length_append] at lengthFront ⊢
    omega
  have inBack : Holds merged.blocks s (first ++ (left' ++ right') ++ []) := by
    have now := inFront.placed sameFront
    rw [← frontPut, List.nil_append] at now
    rwa [List.append_nil]
  have toEnd : (left ++ right).length + (left' ++ right').length ≤ s.len := by
    simp only [List.length_append]
    omega
  have fewerBack : (left' ++ right').length < s.len := by
    rw [List.length_append]
    omega
  rw [ends_bind, ends_sub asserts toEnd, ← lengthFront]
  apply shorter (Holds.part inBack) fewerBack
  intro ctx later second back putBack
  have lengthBack := back.length
  have all : (first ++ second ++ []).length = ([] ++ (left ++ right) ++ (left' ++ right')).length := by
    simp only [List.nil_append, List.append_nil, List.length_append] at lengthFront lengthBack ⊢
    omega
  apply done ctx later (first ++ second) (front.parts back cuts)
  rw [putBack, Holds.place_part inBack lengthBack, frontPut, inFront.place_place sameFront all, put,
    pieces.place_place sameLength (all.trans ?_), List.append_nil]
  simp only [List.nil_append, List.length_append]
  omega

/-- The left run is cut at an elem of it. -/
theorem ends_cutLeft {left' : List α} {pivot : α} {cut place_ : Nat}
    (holds : Holds heap.blocks s ((left ++ pivot :: left') ++ right)) (bounds : Bounds cmp false pivot right place_)
    (atCut : cut = left.length) (some_ : 0 < cut) (atMid : mid = (left ++ pivot :: left').length)
    (shorter : MergesBelow bound s.len cmp)
    {post : C -> SpanMem α -> Prop}
    (done : forall ctx (later : SpanMem α) out, Merges cmp (left ++ pivot :: left') right out ->
      later.blocks = place heap.blocks s out -> post ctx later) :
    Ends (do
      rotate α (← sub s cut (mid + place_ - cut)) (mid - cut)
      let newMid := cut + (mid + place_ - mid)
      let ctx ← mergeInPlace bound (← sub s 0 newMid) cut cmp ctx
      mergeInPlace bound (← sub s newMid (s.len - newMid)) (mid + place_ - newMid) cmp ctx) heap post := by
  have pieces : Holds heap.blocks s ((left ++ pivot :: left') ++ (right.take place_ ++ right.drop place_)) := by
    rwa [List.take_append_drop]
  have behind : (right.take place_).length = place_ := by
    rw [List.length_take]
    exact Nat.min_eq_left bounds.1
  apply ends_sides pieces _ atCut _ shorter _ _ (cuts_lower bounds)
  · intro ctx later out merges put
    rw [List.take_append_drop] at merges
    exact done ctx later out merges put
  · rw [atMid, List.length_append]
  · rw [behind]
  · omega
  · rw [List.length_cons]
    omega

/-- The right run is cut at an elem of it. -/
theorem ends_cutRight {right' : List α} {pivot : α} {cut place_ : Nat}
    (holds : Holds heap.blocks s (left ++ (right ++ pivot :: right'))) (bounds : Bounds cmp true pivot left place_)
    (atCut : cut = mid + right.length) (some_ : 0 < right.length) (atMid : mid = left.length)
    (shorter : MergesBelow bound s.len cmp)
    {post : C -> SpanMem α -> Prop}
    (done : forall ctx (later : SpanMem α) out, Merges cmp left (right ++ pivot :: right') out ->
      later.blocks = place heap.blocks s out -> post ctx later) :
    Ends (do
      rotate α (← sub s place_ (cut - place_)) (mid - place_)
      let newMid := place_ + (cut - mid)
      let ctx ← mergeInPlace bound (← sub s 0 newMid) place_ cmp ctx
      mergeInPlace bound (← sub s newMid (s.len - newMid)) (cut - newMid) cmp ctx) heap post := by
  have pieces : Holds heap.blocks s ((left.take place_ ++ left.drop place_) ++ (right ++ pivot :: right')) := by
    rwa [List.take_append_drop]
  have front : (left.take place_).length = place_ := by
    rw [List.length_take]
    exact Nat.min_eq_left bounds.1
  apply ends_sides pieces _ front.symm atCut shorter _ _ (cuts_upper bounds)
  · intro ctx later out merges put
    rw [List.take_append_drop] at merges
    exact done ctx later out merges put
  · rw [← List.length_append, List.take_append_drop]
    exact atMid
  · omega
  · rw [List.length_cons]
    omega

/-- Two elems are merged by at most one swap. -/
theorem merges_two {a b : α} :
    Merges cmp [a] [b] (if (rightGoesFirst cmp a b ctx).1 = true then [b, a] else [a, b]) := by
  have merged : Merges cmp [a] [b] (Foundation.mergeBy (rightGoesFirst cmp) [a] [b] ctx).1 := Merges.mergeBy
  rw [Foundation.mergeBy] at merged
  by_cases yes : (rightGoesFirst cmp a b ctx).1 = true
  · rw [if_pos yes, mergeBy_nil_right] at merged
    rw [if_pos yes]
    exact merged
  · rw [if_neg yes, mergeBy_nil_left] at merged
    rw [if_neg yes]
    exact merged

/-- Whatever the comparator answers the calls come to an end, and the runs are merged. -/
theorem ends_mergeInPlace (holds : Holds heap.blocks s (left ++ right)) (atMid : left.length = mid)
    (enough : s.len < bound) {post : C -> SpanMem α -> Prop}
    (done : forall ctx (later : SpanMem α) out, Merges cmp left right out ->
      later.blocks = place heap.blocks s out -> post ctx later) :
    Ends (mergeInPlace bound s mid cmp ctx) heap post := by
  induction bound generalizing heap s left right mid ctx post with
  | zero => exact absurd enough (Nat.not_lt_zero _)
  | succ bound ih =>
      have total := holds.length
      rw [List.length_append] at total
      have asserts := Over.asserts holds
      have shorter : MergesBelow bound s.len cmp := by
        intro heap part left right ctx post holdsPart fewer donePart
        exact ih holdsPart rfl (by omega) donePart
      have rest : s.len - mid = right.length := by omega
      subst atMid
      unfold mergeInPlace
      dsimp only
      rw [rest, ends_ite]
      constructor
      · intro empty
        rw [ends_pure]
        apply done ctx heap (left ++ right) (Merges.of_nil (empty.imp List.eq_nil_of_length_eq_zero
          List.eq_nil_of_length_eq_zero))
        rw [holds.place_same]
      · intro some_
        rw [ends_ite]
        constructor
        · intro two
          rw [not_or, List.length_eq_zero_iff, List.length_eq_zero_iff] at some_
          have leftPos := List.length_pos_of_ne_nil some_.1
          have rightPos := List.length_pos_of_ne_nil some_.2
          rcases List.length_eq_one_iff.mp (by omega : left.length = 1) with ⟨a, rfl⟩
          rcases List.length_eq_one_iff.mp (by omega : right.length = 1) with ⟨b, rfl⟩
          have inside : 0 < [a, b].length := Nat.zero_lt_two
          have insideToo : 1 < [a, b].length := Nat.one_lt_two
          have both : Holds heap.blocks s [a, b] := holds
          simp only [ends_bind, ends_get both inside, ends_get both insideToo, List.getElem_cons_zero,
            List.getElem_cons_succ, ends_ite, ends_pure]
          have merged : Merges cmp [a] [b] (if (rightGoesFirst cmp a b ctx).1 = true then [b, a] else [a, b]) :=
            merges_two
          constructor
          · intro yes
            rw [if_pos yes] at merged
            apply ends_swapElems both inside insideToo
            intro later put
            exact done _ later [b, a] merged put
          · intro no
            rw [if_neg no] at merged
            exact done _ heap [a, b] merged both.place_same.symm
        · intro more
          rw [not_or] at some_
          have leftPos := Nat.pos_of_ne_zero some_.1
          have rightPos := Nat.pos_of_ne_zero some_.2
          rw [ends_ite]
          constructor
          · intro longer
            have inside : left.length / 2 < left.length := by omega
            have split : left.take (left.length / 2) ++ left[left.length / 2] :: left.drop (left.length / 2 + 1) = left := by
              rw [List.getElem_cons_drop, List.take_append_drop]
            have front : (left.take (left.length / 2)).length = left.length / 2 := by
              rw [List.length_take]
              omega
            have among : left.length / 2 < (left ++ right).length := by
              rw [List.length_append]
              omega
            have holdsRight : Holds heap.blocks s (left ++ right ++ []) := by
              rwa [List.append_nil]
            rw [ends_bind, ends_sub asserts (by omega), ends_bind, ends_get holds among,
              List.getElem_append_left inside, ends_bind]
            apply ends_lowerBound (Holds.part holdsRight)
            intro place_ ctx bounds
            rw [ends_bind, ends_pure]
            have pieces : Holds heap.blocks s ((left.take (left.length / 2) ++ left[left.length / 2] ::
                left.drop (left.length / 2 + 1)) ++ right) := by
              rwa [split]
            rw [← split] at done
            exact ends_cutLeft pieces bounds front.symm (by omega) (congrArg List.length split.symm) shorter done
          · intro shorterLeft
            have inside : right.length / 2 < right.length := by omega
            have split : right.take (right.length / 2) ++ right[right.length / 2] :: right.drop (right.length / 2 + 1) =
                right := by
              rw [List.getElem_cons_drop, List.take_append_drop]
            have front : (right.take (right.length / 2)).length = right.length / 2 := by
              rw [List.length_take]
              omega
            have among : left.length + right.length / 2 < (left ++ right).length := by
              rw [List.length_append]
              omega
            have holdsLeft : Holds heap.blocks s ([] ++ left ++ right) := holds
            have at_ : (left ++ right)[left.length + right.length / 2] = right[right.length / 2] := by
              rw [List.getElem_append_right (Nat.le_add_right _ _)]
              simp only [Nat.add_sub_cancel_left]
            rw [ends_bind, ends_sub asserts (by omega), ends_bind, ends_get holds among, at_, ends_bind]
            apply ends_upperBound (Holds.part holdsLeft)
            intro place_ ctx bounds
            rw [ends_bind, ends_pure]
            have pieces : Holds heap.blocks s (left ++ (right.take (right.length / 2) ++ right[right.length / 2] ::
                right.drop (right.length / 2 + 1))) := by
              rwa [split]
            rw [← split] at done
            exact ends_cutRight pieces bounds (by rw [front]) (by omega) rfl shorter done

/-! ## With memory or without -/

/-- The block for the shorter run is given back, and a span whose request is refused is merged
without one. -/
theorem ends_inplaceMerge {al : Al} (holds : Holds heap.blocks s (left ++ right)) (atMid : left.length = mid)
    {post : C -> SpanMem α -> Prop}
    (done : forall ctx (later : SpanMem α) out, Merges cmp left right out ->
      later.blocks = place heap.blocks s out -> post ctx later) :
    Ends (inplaceMerge s mid cmp ctx al) heap post := by
  have total := holds.length
  rw [List.length_append] at total
  have below : mid ≤ s.len := by omega
  have rest : s.len - mid = right.length := by omega
  simp only [inplaceMerge, ends_bind, ends_assertSpan (Over.asserts holds), ends_require, below, true_and, rest]
  subst atMid
  rw [ends_ite]
  constructor
  · intro empty
    rw [ends_pure]
    apply done ctx heap (left ++ right)
    · exact Merges.of_nil (empty.imp List.eq_nil_of_length_eq_zero List.eq_nil_of_length_eq_zero)
    · exact holds.place_same.symm
  · intro some_
    rw [not_or, List.length_eq_zero_iff, List.length_eq_zero_iff] at some_
    have without : forall later : SpanMem α, later.blocks = heap.blocks ->
        Ends (mergeInPlace (s.len + 1) s left.length cmp ctx) later post := by
      intro later same
      apply ends_mergeInPlace (same.symm ▸ holds) rfl (Nat.lt_succ_self _)
      rw [same]
      exact done
    have bufLen : (if left.length < right.length then left.length else right.length) =
        min left.length right.length := by
      split <;> omega
    have short : min left.length right.length ≤ s.len := by omega
    have fits : s.elem.size * min left.length right.length < sizeRange :=
      Nat.lt_of_le_of_lt (Nat.mul_le_mul_left _ short) holds.fits
    have bytes : (elemsLayout s.elem (min left.length right.length)).size =
        s.elem.size * min left.length right.length := Nat.mod_eq_of_lt fits
    have slots : (elemsLayout s.elem (min left.length right.length)).size / s.elem.size =
        min left.length right.length := by
      rw [bytes, Nat.mul_div_cancel_left _ (Layout.size_pos holds.isType)]
    rw [bufLen, slots]
    cases real : al.isSome with
    | false =>
        simp only [Bool.false_eq_true, if_false, pure_bind]
        exact without heap rfl
    | true =>
        rw [if_pos rfl, ends_bind]
        apply ends_alloc real without
        intro sized buf given free put
        have away := holds.away free (List.append_ne_nil_of_left_ne_nil some_.1 _)
        have nowHolds : Holds given.blocks s (left ++ right) := by
          rw [put]
          exact holds.beside_block away
        have live : given.blocks buf = some ⟨(al, elemsLayout s.elem (min left.length right.length)),
            List.replicate (min left.length right.length) none⟩ := by
          rw [put, Function.update_self]
        rw [ends_bind]
        apply ends_mergeBuffered nowHolds rfl some_.1 some_.2 live List.length_replicate away
        intro ctx merged out now merges after
        have stillLive : merged.blocks buf = some ⟨(al, elemsLayout s.elem (min left.length right.length)), now⟩ := by
          rw [after, Function.update_self]
        rw [ends_bind, ends_dealloc_some real sized stillLive, ends_pure]
        apply done ctx _ out merges
        have gone : place heap.blocks s out buf = none := (Slice.fill_elsewhere away).trans free
        rw [Heap.put_blocks, after, Function.update_idem, put, place, Slice.fill_update away, Function.update_idem]
        exact Function.update_eq_self_iff.mpr gone.symm

end Span
end TerseDsa
