import TerseDsa.Algo.Effort
import TerseDsa.Algo.Set
import TerseDsa.Algo.Stability
import TerseDsa.Foundation.Costs

namespace TerseDsa

open Foundation Run

/-!
# How often searches and merges ask

A search halves what is left at each call.  A merge, or a walk over two sorted
spans, makes no more calls than there are elems, and the stable sorts, of a span
and of a list, no more than that for each time the elems can be halved.
-/

section Counting

variable {α C : Type} {cmp : Cmp α C}

theorem counted_once : Once Prod.fst (rightGoesFirst (counted cmp)) := fun _ _ _ => Nat.le_refl _

theorem counted_once_asked : Once Prod.fst (Span.asked (counted cmp)) := fun _ _ _ => Nat.le_refl _

theorem counted_once_byElem : Once Prod.fst (TdaList.byElem (counted cmp)) := fun _ _ _ => Nat.le_refl _

end Counting

/-- The predicate, and how often it was called. -/
def countedPred {α C : Type} (pred : Pred α C) : Pred α (Nat × C) :=
  fun elem ctx => ((pred elem ctx.2).1, ctx.1 + 1, (pred elem ctx.2).2)

namespace Span

variable {α β C : Type} {heap mid later : SpanMem α} {s src dst a b : Span} {elems left right now : List α}
  {cells : List (Option α)} {cmp : Cmp α C} {ctx : Nat × C} {len : Nat}

/-! ## Searches -/

/-- How often so many elems can be halved until there is none. -/
def halvings (len : Nat) : Nat := Nat.log2 (2 * len)

/-- Half of them can be halved once less. -/
theorem halvings_half {less : Nat} (some_ : 0 < len) (half : less ≤ len / 2) : halvings less + 1 ≤ halvings len := by
  unfold halvings
  rw [Nat.log2_def (2 * len), if_pos (by omega), Nat.mul_div_cancel_left len Nat.two_pos]
  exact Nat.succ_le_succ (log2_mono (by omega))

theorem halvings_mono {less : Nat} (fewer : less ≤ len) : halvings less ≤ halvings len :=
  log2_mono (Nat.mul_le_mul_left 2 fewer)

/-- What is left to search is halved by each call. -/
theorem ends_partitionPoint_counted (shown : Shown s heap) (pred : Pred α C) {post : Nat × Nat × C -> SpanMem α -> Prop}
    (done : forall place after, place ≤ s.len -> after.1 ≤ ctx.1 + halvings s.len -> post (place, after) heap) :
    Ends (partitionPoint s (countedPred pred) ctx) heap post := by
  simp only [partitionPoint, ends_bind, ends_assertSpan shown.asserts]
  refine ends_loop (fun rounds (vars : Nat × Nat × Nat × C) mid => mid = heap ∧ rounds = vars.2.1 - vars.1 ∧
    vars.1 ≤ vars.2.1 ∧ vars.2.1 ≤ s.len ∧ vars.2.2.1 + halvings (vars.2.1 - vars.1) ≤ ctx.1 + halvings s.len) ?_
    ⟨rfl, rfl, Nat.zero_le _, Nat.le_refl _, Nat.le_refl _⟩ (Nat.lt_succ_self _)
  rintro rounds ⟨lo, hi, now⟩ _ ⟨rfl, rfl, ordered, within, spent⟩
  dsimp only at ordered within spent ⊢
  rw [ends_ite]
  constructor
  · intro more
    rw [ends_bind]
    apply shown.ends_get (by omega)
    intro elem
    have once : (countedPred pred elem now).2.1 = now.1 + 1 := rfl
    generalize countedPred pred elem now = answer at once
    have behind : halvings (hi - (lo + (hi - lo) / 2 + 1)) + 1 ≤ halvings (hi - lo) :=
      halvings_half (by omega) (by omega)
    have before : halvings (lo + (hi - lo) / 2 - lo) + 1 ≤ halvings (hi - lo) := halvings_half (by omega) (by omega)
    rw [ends_ite]
    constructor
    · intro passes
      exact (ends_pure _ _ _).mpr ⟨hi - (lo + (hi - lo) / 2 + 1), by omega, rfl, rfl, by dsimp only; omega, within,
        by dsimp only; omega⟩
    · intro fails
      exact (ends_pure _ _ _).mpr ⟨lo + (hi - lo) / 2 - lo, by omega, rfl, rfl, by dsimp only; omega,
        by dsimp only; omega, by dsimp only; omega⟩
  · intro none_
    exact (ends_pure _ _ _).mpr (done lo now (by omega) (by omega))

theorem ends_bound_counted (shown : Shown s heap) (key : β) (cmp : α -> β -> C -> Int × C) (upper : Bool)
    {post : Nat × Nat × C -> SpanMem α -> Prop}
    (done : forall place after, place ≤ s.len -> after.1 ≤ ctx.1 + halvings s.len -> post (place, after) heap) :
    Ends (bound s key (counted cmp) ctx upper) heap post := by
  have same : passing (counted cmp) upper key = countedPred (passing cmp upper key) := rfl
  rw [bound_eq shown.asserts, same]
  exact ends_partitionPoint_counted shown _ done

/-- Whatever the comparator answers, and of whatever type the key is: a search makes one call for each time the
span can be halved, and one more to tell an equal elem from a greater one. -/
theorem Holds.searches_within (holds : Holds heap.blocks s elems) (key : β) (cmp : α -> β -> C -> Int × C)
    (pred : Pred α C) (out : Nat) (ctx : C) :
    Ends (lowerBound s key (counted cmp) (0, ctx)) heap (fun result _ =>
      result.2.1 ≤ Nat.log2 (2 * elems.length)) ∧
    Ends (upperBound s key (counted cmp) (0, ctx)) heap (fun result _ =>
      result.2.1 ≤ Nat.log2 (2 * elems.length)) ∧
    Ends (equalRange s key (counted cmp) (0, ctx)) heap (fun result _ =>
      result.2.1 ≤ 2 * Nat.log2 (2 * elems.length)) ∧
    Ends (binarySearch s key (counted cmp) (0, ctx) out) heap (fun result _ =>
      result.2.2.1 ≤ Nat.log2 (2 * elems.length) + 1) ∧
    Ends (partitionPoint s (countedPred pred) (0, ctx)) heap fun result _ =>
      result.2.1 ≤ Nat.log2 (2 * elems.length) := by
  have shown : Shown s heap := ⟨elems, holds⟩
  rw [holds.length]
  simp only [lowerBound, upperBound, equalRange, binarySearch, ends_bind, ends_assertSpan shown.asserts]
  refine ⟨?_, ?_, ?_, ?_, ?_⟩
  · exact ends_bound_counted shown key cmp false fun _ _ _ cost =>
      cost.trans (Nat.le_of_eq (Nat.zero_add _))
  · exact ends_bound_counted shown key cmp true fun _ _ _ cost =>
      cost.trans (Nat.le_of_eq (Nat.zero_add _))
  · apply ends_bound_counted shown
    intro place after inside cost
    have tail : place + (s.len - place) ≤ s.len := by omega
    have shownTail := shown.part tail
    rw [ends_sub shown.asserts tail]
    simp only [ends_assertSpan shownTail.asserts]
    apply ends_bound_counted shownTail
    intro more last within costLast
    have fewer : halvings (s.len - place) ≤ halvings s.len := halvings_mono (Nat.sub_le _ _)
    change last.1 ≤ after.1 + halvings (s.len - place) at costLast
    refine (ends_pure _ _ _).mpr ?_
    unfold halvings at cost costLast fewer
    dsimp only at cost ⊢
    omega
  · apply ends_bound_counted shown
    intro place after inside cost
    unfold halvings at cost
    dsimp only at cost ⊢
    rw [ends_ite]
    constructor
    · intro none_
      refine (ends_pure _ _ _).mpr ?_
      dsimp only
      omega
    · intro some_
      rw [ends_bind]
      apply shown.ends_get (by omega)
      intro elem
      have once : (counted cmp elem key after).2.1 = after.1 + 1 := rfl
      generalize counted cmp elem key after = answer at once
      rw [ends_ite]
      constructor
      · intro equal
        refine (ends_pure _ _ _).mpr ?_
        dsimp only
        omega
      · intro greater
        refine (ends_pure _ _ _).mpr ?_
        dsimp only
        omega
  · exact ends_partitionPoint_counted shown pred fun _ _ _ cost =>
      cost.trans (Nat.le_of_eq (Nat.zero_add _))

theorem searches_within_row : Ends (lowerBound (rowSpan 0 4) 8 (counted byValue) (0, ())) (rowsMem [[7, 8, 9, 9]])
    fun result _ => result.2.1 ≤ 3 := by
  have row : Holds (rowsMem [[7, 8, 9, 9]]).blocks (rowSpan 0 4) [7, 8, 9, 9] :=
    rowsMem_holds rfl (show [7, 8, 9, 9].length < sizeRange by decide)
  exact (row.searches_within 8 byValue (fun _ ctx => (true, ctx)) 0 ()).1

/-! ## Merges and walks over two spans -/

/-- No more calls than the two spans have elems, into a `dst` that has the room each of them asks for. -/
structure WalksWithin (heap : SpanMem α) (dst a b : Span) (cmp : Cmp α C) (ctx : C) (most : Nat) : Prop where
  merge : dst.len = a.len + b.len -> Ends (merge dst a b (counted cmp) (0, ctx)) heap fun after _ =>
    after.1 ≤ most - 1
  union : a.len + b.len ≤ dst.len -> Ends (setUnion dst a b (counted cmp) (0, ctx)) heap fun result _ =>
    result.2.1 ≤ most
  intersection : min a.len b.len ≤ dst.len -> Ends (setIntersection dst a b (counted cmp) (0, ctx)) heap
    fun result _ => result.2.1 ≤ most
  difference : a.len ≤ dst.len -> Ends (setDifference dst a b (counted cmp) (0, ctx)) heap fun result _ =>
    result.2.1 ≤ most
  symmetricDifference : a.len + b.len ≤ dst.len ->
    Ends (setSymmetricDifference dst a b (counted cmp) (0, ctx)) heap fun result _ => result.2.1 ≤ most

/-- Each call of the walk settles an elem. -/
theorem Over.ends_setWalk_counted {keep : Keeping} {room : Nat} (laid : Over heap.blocks dst cells)
    (holdsLeft : Holds heap.blocks a left) (holdsRight : Holds heap.blocks b right) (sameLeft : dst.elem = a.elem)
    (sameRight : dst.elem = b.elem) (apartLeft : ¬ Overlap dst a) (apartRight : ¬ Overlap dst b)
    (enough : room ≤ dst.len) (covers : keep.room a.len b.len ≤ room) :
    Ends (setWalk keep room dst a b (counted cmp) ctx) heap fun result _ =>
      result.2.1 ≤ ctx.1 + (left.length + right.length) := by
  rw [← holdsLeft.length, ← holdsRight.length] at covers
  apply ends_setWalk laid holdsLeft holdsRight sameLeft sameRight enough covers apartLeft apartRight
  intro later _
  exact @combine_cost α (Nat × C) Prod.fst ctx _ left right keep (@counted_once_asked α C cmp)

/-- Whatever the comparator answers, and whether the spans are sorted or not: a merge, each of the set operations
and the test for inclusion make no more calls than the two spans have elems. -/
theorem Holds.walks_within (holdsLeft : Holds heap.blocks a left) (holdsRight : Holds heap.blocks b right)
    (cmp : Cmp α C) (ctx : C) :
    Ends (includes a b (counted cmp) (0, ctx)) heap (fun result _ => result.2.1 ≤ left.length + right.length) ∧
    forall (dst : Span) (cells : List (Option α)), Over heap.blocks dst cells -> dst.elem = a.elem ->
      dst.elem = b.elem -> ¬ Overlap dst a -> ¬ Overlap dst b ->
      WalksWithin heap dst a b cmp ctx (left.length + right.length) := by
  refine ⟨?_, fun dst cells laid sameLeft sameRight apartLeft apartRight => ?_⟩
  · apply ends_includes holdsLeft holdsRight
    have cost := @includesBy_cost α (Nat × C) Prod.fst (0, ctx) _ left right (@counted_once_asked α C cmp)
    dsimp only at cost
    omega
  have walk : forall (keep : Keeping) (room : Nat), room ≤ dst.len -> keep.room a.len b.len ≤ room ->
      Ends (setWalk keep room dst a b (counted cmp) (0, ctx)) heap fun result _ =>
        result.2.1 ≤ left.length + right.length := by
    intro keep room enough covers
    refine (laid.ends_setWalk_counted holdsLeft holdsRight sameLeft sameRight apartLeft apartRight enough covers).mono ?_
    exact fun _ _ cost => cost.trans (Nat.le_of_eq (Nat.zero_add _))
  constructor
  · intro room
    apply ends_merge laid holdsLeft holdsRight sameLeft sameRight room apartLeft apartRight
    intro later _
    have cost := @mergeBy_cost α (Nat × C) Prod.fst (0, ctx) _ left right (@counted_once α C cmp)
    dsimp only at cost
    omega
  · exact fun room => walk _ _ room (Nat.le_refl _)
  · intro room
    have fewer : (if a.len < b.len then a.len else b.len) = min a.len b.len := by
      split <;> omega
    rw [setIntersection, fewer]
    exact walk _ _ room (Nat.le_refl _)
  · exact fun room => walk _ _ room (Nat.le_refl _)
  · exact fun room => walk _ _ room (Nat.le_refl _)

/-- A merge, an intersection that has room for the shorter span only, and the test that has none. -/
theorem walks_within_rows :
    Ends (merge (rowSpan 0 5) (rowSpan 2 3) (rowSpan 3 2) (counted byValue) (0, ()))
      (rowsMem [[0, 0, 0, 0, 0], [0, 0], [1, 2, 2], [2, 3]]) (fun after _ => after.1 ≤ 4) ∧
    Ends (setIntersection (rowSpan 1 2) (rowSpan 2 3) (rowSpan 3 2) (counted byValue) (0, ()))
      (rowsMem [[0, 0, 0, 0, 0], [0, 0], [1, 2, 2], [2, 3]]) (fun result _ => result.2.1 ≤ 5) ∧
    Ends (includes (rowSpan 2 3) (rowSpan 3 2) (counted byValue) (0, ()))
      (rowsMem [[0, 0, 0, 0, 0], [0, 0], [1, 2, 2], [2, 3]]) fun result _ => result.2.1 ≤ 5 := by
  have long : Holds (rowsMem [[0, 0, 0, 0, 0], [0, 0], [1, 2, 2], [2, 3]]).blocks (rowSpan 0 5) [0, 0, 0, 0, 0] :=
    rowsMem_holds rfl (show [0, 0, 0, 0, 0].length < sizeRange by decide)
  have short : Holds (rowsMem [[0, 0, 0, 0, 0], [0, 0], [1, 2, 2], [2, 3]]).blocks (rowSpan 1 2) [0, 0] :=
    rowsMem_holds rfl (show [0, 0].length < sizeRange by decide)
  have first : Holds (rowsMem [[0, 0, 0, 0, 0], [0, 0], [1, 2, 2], [2, 3]]).blocks (rowSpan 2 3) [1, 2, 2] :=
    rowsMem_holds rfl (show [1, 2, 2].length < sizeRange by decide)
  have second : Holds (rowsMem [[0, 0, 0, 0, 0], [0, 0], [1, 2, 2], [2, 3]]).blocks (rowSpan 3 2) [2, 3] :=
    rowsMem_holds rfl (show [2, 3].length < sizeRange by decide)
  have within := first.walks_within second byValue ()
  exact ⟨(within.2 _ _ long rfl rfl (by decide) (by decide)).merge rfl,
    (within.2 _ _ short rfl rfl (by decide) (by decide)).intersection (by decide), within.1⟩

/-! ## Sorting by merging -/

/-- Each pass doubles the width of the runs and asks no more often than there are elems. -/
theorem ends_sortStable_counted {al : Al} (holds : Holds heap.blocks s elems) (real : al.isSome = true)
    (fits : heap.Grants -> 2 * (s.elem.size * s.len) ≤ sizeRange) :
    Ends (sortStable s (counted cmp) ctx al) heap fun result _ =>
      result.2.1 ≤ ctx.1 + elems.length * Nat.clog 2 elems.length := by
  apply ends_sortStable_passes holds real fits (fun e _ spent =>
    e ≤ Nat.clog 2 elems.length ∧ spent.1 ≤ ctx.1 + elems.length * e)
  · exact ⟨Nat.zero_le _, Nat.le_refl _⟩
  · intro e now spent more length within
    have fewer : e < Nat.clog 2 elems.length := (Nat.lt_clog_iff_pow_lt Nat.one_lt_two).mpr more
    have cost := @mergeRuns_cost α (Nat × C) Prod.fst spent _ now (@counted_once α C cmp) (2 ^ e)
    have next : elems.length * (e + 1) = elems.length * e + elems.length := Nat.mul_succ _ _
    exact ⟨fewer, by omega⟩
  · exact fun _ _ _ _ => Nat.le_add_right _ _
  · intro _ e now spent later _ _ within _
    exact within.2.trans (Nat.add_le_add_left (Nat.mul_le_mul_left _ within.1) _)

end Span

section Stably

open TdaList

variable {α C : Type} {spanHeap : SpanMem α} {heap : ListMem α} {s : Span} {values : List α} {self src : TdaList}
  {nodes others : List (Addr × α)}

/-- Whatever the comparator answers: a stable sort, of a span or of a list, makes no more calls than there are
elems for each time that these can be halved; and lists are merged with a call for each elem, whether or not they
are on one allocator. -/
theorem TdaList.Holds.stable_sorts_within {al : Al} (holds : Holds heap.blocks self nodes)
    (holdsSrc : Holds heap.blocks src others) (sameElem : self.elem = src.elem)
    (apart : (addrs nodes).Disjoint (addrs others)) (row : s.Holds spanHeap.blocks values) (real : al.isSome = true)
    (fits : spanHeap.Grants -> 2 * (s.elem.size * s.len) ≤ sizeRange) (cmp : Cmp α C) (ctx : C) :
    Ends (Span.sortStable s (counted cmp) (0, ctx) al) spanHeap (fun result _ =>
      result.2.1 ≤ values.length * Nat.clog 2 values.length) ∧
    Ends (TdaList.sort self (counted cmp) (0, ctx)) heap (fun result _ =>
      result.2.1 ≤ nodes.length * Nat.clog 2 nodes.length) ∧
    Ends (mergeImpl self src (counted cmp) (0, ctx)) heap fun result _ =>
      result.2.2.2.1 ≤ nodes.length + others.length - 1 := by
  refine ⟨?_, ?_, ?_⟩
  · exact (Span.ends_sortStable_counted row real fits).mono fun _ _ cost => cost.trans (Nat.le_of_eq (Nat.zero_add _))
  · apply ends_sort holds
    intro after later _
    exact (sortBy_cost counted_once_byElem).trans (Nat.le_of_eq (Nat.zero_add _))
  · apply ends_mergeImpl holds holdsSrc sameElem apart
    · intro _ _ later _
      exact Nat.zero_le _
    · intro after bare later moved sameElems _ _ _
      have length : moved.length = others.length := by
        have lengths := congrArg List.length sameElems
        rwa [elems, elems, List.length_map, List.length_map] at lengths
      refine (mergeBy_cost counted_once_byElem).trans ?_
      rw [length]
      exact Nat.le_of_eq (Nat.zero_add _)

theorem stable_sorts_within_pair : Ends (TdaList.sort ⟨some 1, some 2, 2, ⟨1, 1⟩, some 0⟩ (counted byValue) (0, ()))
    pairMem fun result _ => result.2.1 ≤ 2 * Nat.clog 2 2 := by
  have bare : TdaList.Holds pairMem.blocks ⟨none, none, 0, ⟨1, 1⟩, some 0⟩ [] :=
    ⟨rfl, by decide, by decide, fun _ impossible => absurd impossible List.not_mem_nil, ⟨rfl, rfl⟩, rfl⟩
  have row : Span.Holds (Span.rowsMem [[7, 9, 8]]).blocks (Span.rowSpan 0 3) [7, 9, 8] :=
    Span.rowsMem_holds rfl (show [7, 9, 8].length < sizeRange by decide)
  have within := TdaList.Holds.stable_sorts_within pairMem_holds bare rfl (List.disjoint_nil_right _) row
    (rfl : (some 0 : Al).isSome = true) (fun _ => by decide) byValue ()
  exact within.2.1

end Stably
end TerseDsa
