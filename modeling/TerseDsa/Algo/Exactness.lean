import TerseDsa.Algo.ExactSort
import TerseDsa.Algo.Find
import TerseDsa.Algo.InplaceMerging

namespace TerseDsa

open Foundation Run

/-!
# No index wraps around

The searches of a span in another and the merge in place with operators that
go wrong where they wrap, besides the sorts and the heap.  An object has at
most `PTRDIFF_MAX` bytes, so a span over one has at most as many elems, which
is less than half as many as there are sizes.  There all of them stay exact,
whatever the callbacks answer.
-/

/-- `PTRDIFF_MAX`, the most bytes that an object has. -/
def ptrdiffMax : Nat := 2 ^ 63 - 1

namespace Span

/-! ## A span in another -/

section Search

variable {α C : Type} {heap : SpanMem α} {s sub_ : Span} {elems subs : List α} {eq : Equate α α C} {ctx : C}
  {out idx : Nat}

namespace Exact

/-- `matches_at`. -/
def matchesAt (s sub : Span) (idx : Nat) (eq : Equate α α C) (ctx : C) : Run (SpanMem α) (Bool × C) := do
  let behind ← exactAdd idx sub.len
  require (behind ≤ s.len)
  let round ← scanUp (fun j ctx => do
    let elem ← get s (← exactAdd idx j)
    let key ← get sub j
    let (same, ctx) := eq elem key ctx
    if !same then
      return .leave (false, ctx)
    return .again ctx) sub.len 0 ctx
  return round.close fun ctx => (true, ctx)

/-- `tda_span_find_sub`. -/
def findSub (s sub : Span) (eq : Equate α α C) (ctx : C) (out : Nat) : Run (SpanMem α) (Bool × Nat × C) := do
  assertSpan s
  assertSpan sub
  if sub.len = 0 then
    return (true, 0, ctx)
  if sub.len > s.len then
    return (false, out, ctx)
  loop (fun (vars : Nat × C) => do
    let (i, ctx) := vars
    let behind ← exactAdd i sub.len
    if behind ≤ s.len then
      let (found, ctx) ← matchesAt s sub i eq ctx
      if found then
        return .leave (true, i, ctx)
      let next ← exactAdd i 1
      return .again (next, ctx)
    else
      return .leave (false, out, ctx)) (s.len + 1) (0, ctx)

/-- `tda_span_find_last_sub`. -/
def findLastSub (s sub : Span) (eq : Equate α α C) (ctx : C) (out : Nat) : Run (SpanMem α) (Bool × Nat × C) := do
  assertSpan s
  assertSpan sub
  if sub.len = 0 then
    return (true, s.len, ctx)
  if sub.len > s.len then
    return (false, out, ctx)
  -- counts down through 0, so the loop var is the start plus one
  let starts ← exactAdd (← exactSub s.len sub.len) 1
  let round ← scanDown (fun start ctx => do
    let (found, ctx) ← matchesAt s sub start eq ctx
    if found then
      return .leave (true, start, ctx)
    return .again ctx) starts ctx
  return round.close fun ctx => (false, out, ctx)

theorem matchesAt_eq (fits : idx + sub_.len < sizeRange) :
    matchesAt s sub_ idx eq ctx = Span.matchesAt s sub_ idx eq ctx := by
  unfold matchesAt Span.matchesAt
  rw [exactAdd_eq fits, pure_bind, wrapAdd_eq fits]
  refine Run.bind_congr fun _ => congrArg (· >>= _) (Run.scanUp_congr (Nat.zero_add _) fun j ctx _ below => ?_)
  rw [exactAdd_eq (by omega), pure_bind, wrapAdd_eq (by omega)]

theorem findSub_eq (small : 2 * s.len + 1 < sizeRange) :
    findSub s sub_ eq ctx out = Span.findSub s sub_ eq ctx out := by
  refine Run.bind_congr fun _ => Run.bind_congr fun _ => Run.ite_congr_run (fun _ => rfl) fun _ => ?_
  refine Run.ite_congr_run (fun _ => rfl) fun short => ?_
  -- a start with room for the elems comes before each but the first
  refine Run.loop_congr (fun vars => vars.1 + sub_.len ≤ s.len + 1) ?_ ?_ (by dsimp only; omega)
  · rintro ⟨i, ctx⟩ room
    dsimp only at room ⊢
    rw [exactAdd_eq (by omega), pure_bind, wrapAdd_eq (by omega), matchesAt_eq (by omega)]
    refine Run.ite_congr_run (fun fits => Run.bind_congr fun answer => ?_) fun _ => rfl
    refine Run.ite_congr_run (fun _ => rfl) fun _ => ?_
    rw [exactAdd_eq (by omega), pure_bind]
  · rintro ⟨i, ctx⟩ room
    dsimp only at room
    refine Run.Yields.ite (fun fits => Run.Yields.after fun answer => ?_) fun _ => Run.Yields.pure trivial
    refine Run.Yields.ite (fun _ => Run.Yields.pure trivial) fun _ => Run.Yields.pure ?_
    rw [wrapAdd_eq (by omega)] at fits
    dsimp only [Run.Round.Meets]
    omega

theorem findLastSub_eq (small : 2 * s.len + 1 < sizeRange) :
    findLastSub s sub_ eq ctx out = Span.findLastSub s sub_ eq ctx out := by
  refine Run.bind_congr fun _ => Run.bind_congr fun _ => Run.ite_congr_run (fun _ => rfl) fun _ => ?_
  refine Run.ite_congr_run (fun _ => rfl) fun short => ?_
  rw [exactSub_eq (by omega), pure_bind, exactAdd_eq (by omega), pure_bind, wrapSub_eq (by omega) (by omega),
    wrapAdd_eq (by omega)]
  refine congrArg (· >>= _) (Run.scanDown_congr fun start ctx below => ?_)
  rw [matchesAt_eq (by omega)]

end Exact

theorem ends_matchesAt_any (holds : Holds heap.blocks s elems) (holdsSub : Holds heap.blocks sub_ subs)
    (fits : idx + subs.length ≤ elems.length) {post : Bool × C -> SpanMem α -> Prop}
    (done : forall found ctx, post (found, ctx) heap) : Ends (matchesAt s sub_ idx eq ctx) heap post := by
  have len := holds.length
  have lenSub := holdsSub.length
  have short := holds.length_lt
  simp only [matchesAt, ends_bind, ends_require, holds.room_at holdsSub fits, true_and]
  refine ends_scanUp (fun _ _ later => later = heap) (Nat.zero_add sub_.len) ?_ ?_ rfl
  · rintro j ctx later _ below rfl
    rw [wrapAdd_eq (by omega), ends_bind, ends_get holds (by omega), ends_bind, ends_get holdsSub (by omega),
      ends_ite]
    constructor
    · intro _
      rw [ends_pure, Run.Round.meets_leave, ends_pure]
      exact done false _
    · intro _
      rw [ends_pure, Run.Round.meets_again]
  · rintro ctx later rfl
    rw [ends_pure]
    exact done true ctx

theorem ends_findSub_any (holds : Holds heap.blocks s elems) (holdsSub : Holds heap.blocks sub_ subs)
    (small : 2 * s.len + 1 < sizeRange) : Ends (findSub s sub_ eq ctx out) heap fun _ later => later = heap := by
  have len := holds.length
  have lenSub := holdsSub.length
  simp only [findSub, ends_bind, ends_assertSpan (Over.asserts holds), ends_assertSpan (Over.asserts holdsSub),
    ends_ite, ends_pure, implies_true, true_and]
  intro some_ short
  refine ends_loop (fun left (vars : Nat × C) later => later = heap ∧ left + vars.1 = s.len ∧
    vars.1 + sub_.len ≤ s.len + 1) ?_ (n := s.len) ⟨rfl, Nat.add_zero _, by dsimp only; omega⟩ (Nat.lt_succ_self _)
  rintro left ⟨i, ctx⟩ later ⟨rfl, count, room⟩
  dsimp only at count room ⊢
  rw [wrapAdd_eq (by omega), ends_ite]
  constructor
  · intro fits
    rw [ends_bind]
    apply ends_matchesAt_any holds holdsSub (by omega)
    intro found ctx
    rw [ends_ite, ends_pure, ends_pure]
    exact ⟨fun _ => rfl, fun _ => ⟨left - 1, by omega, rfl, by dsimp only; omega, by dsimp only; omega⟩⟩
  · intro _
    rw [ends_pure]

theorem ends_findLastSub_any (holds : Holds heap.blocks s elems) (holdsSub : Holds heap.blocks sub_ subs)
    (small : 2 * s.len + 1 < sizeRange) :
    Ends (findLastSub s sub_ eq ctx out) heap fun _ later => later = heap := by
  have len := holds.length
  have lenSub := holdsSub.length
  simp only [findLastSub, ends_bind, ends_assertSpan (Over.asserts holds),
    ends_assertSpan (Over.asserts holdsSub), ends_ite, ends_pure, implies_true, true_and]
  intro some_ short
  rw [wrapSub_eq (by omega) (by omega), wrapAdd_eq (by omega)]
  refine ends_scanDown (fun _ _ later => later = heap) ?_ (fun _ _ same => same) rfl
  rintro start ctx later below rfl
  rw [ends_bind]
  apply ends_matchesAt_any holds holdsSub (by omega)
  intro found ctx
  rw [ends_ite, ends_pure, ends_pure, Run.Round.meets_leave, Run.Round.meets_again]
  exact ⟨fun _ => rfl, fun _ => rfl⟩

end Search

/-! ## The merge in place -/

section Merge

variable {α β C : Type} {s : Span} {cmp : Cmp α C} {ctx : C} {mid calls leftCut rightCut : Nat}

namespace Exact

/-- `merge_in_place`. -/
def mergeInPlace : (bound : Nat) -> (s : Span) -> (mid : Nat) -> (cmp : Cmp α C) -> C -> Run (SpanMem α) C
  | 0, _, _, _, _ => failure
  | bound + 1, s, mid, cmp, ctx => do
      let leftLen := mid
      let rightLen ← exactSub s.len mid
      if leftLen = 0 ∨ rightLen = 0 then
        return ctx
      if s.len = 2 then
        let lhs ← get s 0
        let rhs ← get s 1
        let (rightFirst, ctx) := rightGoesFirst cmp lhs rhs ctx
        if rightFirst then
          swapElems α s 0 1
        return ctx
      let (leftCut, rightCut, ctx) ← if leftLen > rightLen then do
          let leftCut := leftLen / 2
          let right ← sub s mid rightLen
          let (place, ctx) ← lowerBound right (← get s leftCut) cmp ctx
          let rightCut ← exactAdd mid place
          pure (leftCut, rightCut, ctx)
        else do
          let rightCut ← exactAdd mid (rightLen / 2)
          let left ← sub s 0 mid
          let (place, ctx) ← upperBound left (← get s rightCut) cmp ctx
          pure (place, rightCut, ctx)
      rotate α (← sub s leftCut (← exactSub rightCut leftCut)) (← exactSub mid leftCut)
      let newMid ← exactAdd leftCut (← exactSub rightCut mid)
      let ctx ← mergeInPlace bound (← sub s 0 newMid) leftCut cmp ctx
      mergeInPlace bound (← sub s newMid (← exactSub s.len newMid)) (← exactSub rightCut newMid) cmp ctx

/-- A bound is a place of the span, whatever the memory. -/
theorem yields_bound {key : β} {cmp : α -> β -> C -> Int × C} {upper : Bool} :
    Run.Yields (bound s key cmp ctx upper) fun result => result.1 ≤ s.len := by
  refine Run.Yields.loop (fun vars => vars.1 ≤ vars.2.1 ∧ vars.2.1 ≤ s.len) ?_ ⟨Nat.zero_le _, Nat.le_refl _⟩
  rintro ⟨lo, hi, ctx⟩ ⟨ordered, within⟩
  dsimp only at ordered within
  refine Run.Yields.ite (fun some_ => Run.Yields.after fun elem => ?_) fun _ =>
    Run.Yields.pure (Nat.le_trans ordered within)
  refine Run.Yields.ite (fun _ => Run.Yields.pure ⟨?_, within⟩) fun _ => Run.Yields.pure ⟨?_, ?_⟩
  all_goals
    dsimp only
    omega

theorem yields_lowerBound {key : β} {cmp : α -> β -> C -> Int × C} :
    Run.Yields (lowerBound s key cmp ctx) fun result => result.1 ≤ s.len :=
  Run.Yields.after fun _ => yields_bound

theorem yields_upperBound {key : β} {cmp : α -> β -> C -> Int × C} :
    Run.Yields (upperBound s key cmp ctx) fun result => result.1 ≤ s.len :=
  Run.Yields.after fun _ => yields_bound

/-- The inner pieces are rotated and the two sides merged, wherever the cuts are on their sides of the middle. -/
theorem sides_eq (small : 2 * s.len + 1 < sizeRange) (before : leftCut ≤ mid) (behind : mid ≤ rightCut)
    (inside : rightCut ≤ s.len) (shorter : forall {part mid ctx}, mid ≤ part.len -> 2 * part.len + 1 < sizeRange ->
      mergeInPlace calls part mid cmp ctx = Span.mergeInPlace calls part mid cmp ctx) :
    (do
      rotate α (← sub s leftCut (← exactSub rightCut leftCut)) (← exactSub mid leftCut)
      let newMid ← exactAdd leftCut (← exactSub rightCut mid)
      let ctx ← mergeInPlace calls (← sub s 0 newMid) leftCut cmp ctx
      mergeInPlace calls (← sub s newMid (← exactSub s.len newMid)) (← exactSub rightCut newMid) cmp ctx) =
    (do
      rotate α (← sub s leftCut (rightCut - leftCut)) (mid - leftCut)
      let newMid := leftCut + (rightCut - mid)
      let ctx ← Span.mergeInPlace calls (← sub s 0 newMid) leftCut cmp ctx
      Span.mergeInPlace calls (← sub s newMid (s.len - newMid)) (rightCut - newMid) cmp ctx) := by
  simp (disch := omega) only [exactAdd_eq, exactSub_eq, pure_bind]
  refine Run.bind_congr fun inner => Run.bind_congr fun _ => ?_
  refine Run.bind_congr_yields yields_sub fun front size => ?_
  rw [shorter (by omega) (by omega)]
  refine Run.bind_congr fun ctx => Run.bind_congr_yields yields_sub fun back size => ?_
  exact shorter (by omega) (by omega)

/-- The runs of each call are at most as long as the span, and its cuts are in them. -/
theorem mergeInPlace_eq (within : mid ≤ s.len) (small : 2 * s.len + 1 < sizeRange) :
    mergeInPlace calls s mid cmp ctx = Span.mergeInPlace calls s mid cmp ctx := by
  induction calls generalizing s mid ctx with
  | zero => rfl
  | succ calls ih =>
      rw [mergeInPlace, Span.mergeInPlace, exactSub_eq within, pure_bind]
      refine Run.ite_congr_run (fun _ => rfl) fun _ => Run.ite_congr_run (fun _ => rfl) fun _ => ?_
      refine Run.ite_congr_run (fun _ => ?_) fun _ => ?_
      · refine Run.bind_congr_yields yields_sub fun right size => Run.bind_congr fun pivot => ?_
        refine Run.bind_congr_yields yields_lowerBound ?_
        rintro ⟨place, ctx⟩ reach
        dsimp only at reach ⊢
        rw [exactAdd_eq (by omega), pure_bind, pure_bind, pure_bind]
        have inside : mid + place ≤ s.len := by omega
        exact sides_eq small (Nat.div_le_self _ _) (Nat.le_add_right _ _) inside ih
      · rw [exactAdd_eq (by omega), pure_bind]
        refine Run.bind_congr_yields yields_sub fun left size => Run.bind_congr fun pivot => ?_
        refine Run.bind_congr_yields yields_upperBound ?_
        rintro ⟨place, ctx⟩ reach
        dsimp only at reach ⊢
        rw [pure_bind, pure_bind]
        have inside : mid + (s.len - mid) / 2 ≤ s.len := by omega
        exact sides_eq small (by omega) (Nat.le_add_right _ _) inside ih

end Exact

end Merge

/-! ## Every index -/

variable {α C : Type} {heap : SpanMem α} {s : Span} {elems : List α} {cmp : Cmp α C} {ctx : C}

/-- On this span no sum, difference or product of indices is out of range, and every loop comes to an end:
in the stable sort, the quicksort and the sort of a whole span, the sifts and what is built of them, the
searches of a span in this one, and the merge in place. -/
structure IndicesExact (heap : SpanMem α) (s : Span) (cmp : Cmp α C) (ctx : C) : Prop where
  sortStable : forall al, al.isSome = true ->
    StaysExact (Exact.sortStable s cmp ctx al) (sortStable s cmp ctx al) heap
  ninther : forall left right, left < right -> right < s.len ->
    StaysExact (Exact.ninther s left right cmp ctx) (ninther s left right cmp ctx) heap
  partition3 : forall left right pivotIdx, left ≤ pivotIdx -> pivotIdx ≤ right -> right < s.len ->
    StaysExact (Exact.partition3 s left right pivotIdx cmp ctx) (partition3 s left right pivotIdx cmp ctx) heap
  quicksort : forall left right depth bound, right < s.len -> right - left < bound ->
    StaysExact (Exact.quicksort bound s left right depth cmp ctx) (quicksort bound s left right depth cmp ctx) heap
  sort : StaysExact (Exact.sort s cmp ctx) (sort s cmp ctx) heap
  siftDown : forall idx len, idx ≤ len -> len ≤ s.len ->
    StaysExact (Exact.siftDown s idx len cmp ctx) (siftDown s idx len cmp ctx) heap
  siftUp : forall idx, idx < s.len -> StaysExact (Exact.siftUp s idx cmp ctx) (siftUp s idx cmp ctx) heap
  makeHeap : StaysExact (Exact.makeHeap s cmp ctx) (makeHeap s cmp ctx) heap
  pushHeap : 0 < s.len -> StaysExact (Exact.pushHeap s cmp ctx) (pushHeap s cmp ctx) heap
  popHeap : 0 < s.len -> StaysExact (Exact.popHeap s cmp ctx) (popHeap s cmp ctx) heap
  sortHeap : StaysExact (Exact.sortHeap s cmp ctx) (sortHeap s cmp ctx) heap
  findSub : forall (sub : Span) (subs : List α) (eq : Equate α α C) (out : Nat), Holds heap.blocks sub subs ->
    StaysExact (Exact.findSub s sub eq ctx out) (findSub s sub eq ctx out) heap
  findLastSub : forall (sub : Span) (subs : List α) (eq : Equate α α C) (out : Nat), Holds heap.blocks sub subs ->
    StaysExact (Exact.findLastSub s sub eq ctx out) (findLastSub s sub eq ctx out) heap
  mergeInPlace : forall mid bound, mid ≤ s.len -> s.len < bound ->
    StaysExact (Exact.mergeInPlace bound s mid cmp ctx) (mergeInPlace bound s mid cmp ctx) heap

/-- Twice the bytes of an object are sizes. -/
theorem twice_object {bytes : Nat} (object : bytes ≤ ptrdiffMax) : 2 * bytes + 1 < sizeRange := by
  unfold ptrdiffMax at object
  unfold sizeRange
  omega

theorem Holds.indices_exact (holds : Holds heap.blocks s elems) (object : s.len * s.elem.size ≤ ptrdiffMax)
    (cmp : Cmp α C) (ctx : C) : IndicesExact heap s cmp ctx := by
  have bytes := twice_object object
  have few := Nat.le_mul_of_pos_right s.len (Layout.size_pos holds.isType)
  have small : 2 * s.len + 1 < sizeRange := by omega
  have length := holds.length
  have some_ : 0 < s.len -> elems ≠ [] := fun positive => List.ne_nil_of_length_pos (length ▸ positive)
  exact {
    sortStable := by
      intro al real
      have room : 2 * (s.elem.size * s.len) ≤ sizeRange := by
        rw [Nat.mul_comm s.elem.size]
        omega
      exact .of_eq (Exact.sortStable_eq small) (ends_sortStable holds real (fun _ => room) (fun _ _ _ _ => trivial)
        fun _ _ _ _ _ _ => trivial)
    ninther := by
      intro left right ordered inside
      exact .of_eq (Exact.ninther_eq (Nat.le_of_lt ordered) (by omega))
        (ends_ninther (holds.holdsIn (by omega)) ordered fun _ _ _ _ => trivial)
    partition3 := by
      intro left right pivotIdx from_ upTo inside
      exact .of_eq (Exact.partition3_eq (by omega))
        (ends_partition3 (holds.holdsIn (by omega)) from_ upTo (by omega) fun _ _ _ _ _ _ _ _ _ _ _ => trivial)
    quicksort := by
      intro left right depth bound inside enough
      exact .of_eq (Exact.quicksort_eq (by omega))
        (ends_quicksort enough (holds.holdsIn (by omega)) fun _ _ _ _ _ _ => trivial)
    sort := .of_eq (Exact.sort_eq small) (ends_sort holds fun _ _ _ _ _ _ => trivial)
    siftDown := by
      intro idx len within inside
      exact .of_eq (Exact.siftDown_eq small within) (ends_siftDown holds (by omega) fun _ _ _ _ _ _ => trivial)
    siftUp := by
      intro idx inside
      exact .of_eq Exact.siftUp_eq (ends_siftUp holds (by omega) fun _ _ _ _ _ _ => trivial)
    makeHeap := .of_eq (Exact.makeHeap_eq small) (ends_makeHeap holds fun _ _ _ _ _ _ => trivial)
    pushHeap := by
      intro positive
      exact .of_eq Exact.pushHeap_eq (ends_pushHeap holds (some_ positive) fun _ _ _ _ _ _ => trivial)
    popHeap := by
      intro positive
      exact .of_eq (Exact.popHeap_eq small) (ends_popHeap holds (some_ positive) fun _ _ _ _ _ _ _ _ => trivial)
    sortHeap := .of_eq (Exact.sortHeap_eq small) (ends_sortHeap holds fun _ _ _ _ _ _ => trivial)
    findSub := by
      intro sub subs eq out holdsSub
      exact .of_eq (Exact.findSub_eq small) ((ends_findSub_any holds holdsSub small).mono fun _ _ _ => trivial)
    findLastSub := by
      intro sub subs eq out holdsSub
      exact .of_eq (Exact.findLastSub_eq small)
        ((ends_findLastSub_any holds holdsSub small).mono fun _ _ _ => trivial)
    mergeInPlace := by
      intro mid bound within enough
      have runs : Holds heap.blocks s (elems.take mid ++ elems.drop mid) := by
        rwa [List.take_append_drop]
      exact .of_eq (Exact.mergeInPlace_eq within small)
        (ends_mergeInPlace runs (by rw [List.length_take]; omega) enough fun _ _ _ _ _ => trivial) }

theorem indices_exact_largest :
    IndicesExact (rowsMem [List.replicate ptrdiffMax 7]) (rowSpan 0 ptrdiffMax) byValue () := by
  have length : (List.replicate ptrdiffMax 7).length = ptrdiffMax := List.length_replicate
  have small : (List.replicate ptrdiffMax 7).length < sizeRange := by
    rw [length]
    decide
  have largest : Holds (rowsMem [List.replicate ptrdiffMax 7]).blocks (rowSpan 0 ptrdiffMax)
      (List.replicate ptrdiffMax 7) := by
    have first : [List.replicate ptrdiffMax 7][0]? = some (List.replicate ptrdiffMax 7) := rfl
    have row := rowsMem_holds first small
    rwa [length] at row
  exact Holds.indices_exact largest (Nat.le_of_eq (Nat.mul_one ptrdiffMax)) byValue ()

end Span
end TerseDsa
