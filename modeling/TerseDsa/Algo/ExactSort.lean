import TerseDsa.Core.Size
import TerseDsa.Foundation.Yielding
import TerseDsa.Algo.Quicksort
import TerseDsa.Algo.Stable

namespace TerseDsa

open Foundation

/-!
# Sizes that do not wrap

The operators on `size_t` as a run: where the result is out of range the run
goes wrong.  A function written with them ends only if none of its sums,
differences and products wraps around.
-/

variable {S α : Type} {a b : Nat}

/-- `a + b`, without a carry. -/
def exactAdd (a b : Nat) : Run S Nat := do
  Run.require (a + b < sizeRange)
  return a + b

/-- `a - b`, without a borrow. -/
def exactSub (a b : Nat) : Run S Nat := do
  Run.require (b ≤ a)
  return a - b

/-- `a * b`, in one word. -/
def exactMul (a b : Nat) : Run S Nat := do
  Run.require (a * b < sizeRange)
  return a * b

theorem exactAdd_eq (fits : a + b < sizeRange) : exactAdd (S := S) a b = pure (a + b) := by
  rw [exactAdd, Run.require_of fits, pure_bind]

theorem exactSub_eq (le : b ≤ a) : exactSub (S := S) a b = pure (a - b) := by
  rw [exactSub, Run.require_of le, pure_bind]

theorem exactMul_eq (fits : a * b < sizeRange) : exactMul (S := S) a b = pure (a * b) := by
  rw [exactMul, Run.require_of fits, pure_bind]

/-- Where the operators go wrong if they wrap, the run is the one that it is without, and it comes to an
end: every sum, difference and product is in range, and no loop goes on for ever. -/
def StaysExact (exact plain : Run S α) (s : S) : Prop := exact = plain ∧ Run.Ends exact s fun _ _ => True

theorem StaysExact.of_eq {exact plain : Run S α} {s : S} (same : exact = plain)
    (ends : Run.Ends plain s fun _ _ => True) : StaysExact exact plain s :=
  ⟨same, same ▸ ends⟩

/-!
## The heap and the sorts with exact indices

The sifts and the functions of `algo/heap`, the stable sort and the quicksort,
with operators that go wrong where they wrap.  Twice the length of a span over
an object is a size.  An index whose children are looked up is below the
length; the passes of the stable sort start a pair at the first elem or behind
a pair; and the quicksort takes off only what the order of its indices leaves
room for.
-/

namespace Span
namespace Exact

/-! ## The heap -/

section Heaping

variable {α C : Type} {s : Span} {cmp : Cmp α C} {ctx : C} {idx count len : Nat}

/-- `tda_heap_parent`. -/
def heapParent {S : Type} (idx : Nat) : Run S Nat := do
  Run.require (idx > 0)
  return (← exactSub idx 1) / 2

/-- `tda_heap_left`. -/
def heapLeft {S : Type} (idx : Nat) : Run S Nat := do
  let double ← exactMul 2 idx
  exactAdd double 1

/-- What `tda_heap_sift_down` calls `best`. -/
def bestChild (s : Span) (left len : Nat) (cmp : Cmp α C) (ctx : C) : Run (SpanMem α) (Nat × C) := do
  let right ← exactAdd left 1
  if right < len then
    let (above, ctx) ← heapAbove s left right cmp ctx
    return (if above then left else right, ctx)
  else
    return (left, ctx)

/-- `tda_heap_sift_down`. -/
def siftDown (s : Span) (idx len : Nat) (cmp : Cmp α C) (ctx : C) : Run (SpanMem α) C := do
  Run.require (len ≤ s.len)
  Run.loop (fun (vars : Nat × C) => do
    let (idx, ctx) := vars
    let left ← heapLeft idx
    if left ≥ len then
      return .leave ctx
    let (best, ctx) ← bestChild s left len cmp ctx
    let (above, ctx) ← heapAbove s idx best cmp ctx
    if above then
      return .leave ctx
    swapElems α s idx best
    return .again (best, ctx))
    (len + 1) (idx, ctx)

/-- `tda_heap_sift_up`. -/
def siftUp (s : Span) (idx : Nat) (cmp : Cmp α C) (ctx : C) : Run (SpanMem α) C :=
  Run.loop (fun (vars : Nat × C) => do
    let (idx, ctx) := vars
    if idx > 0 then
      let parent ← heapParent idx
      let (above, ctx) ← heapAbove s parent idx cmp ctx
      if above then
        return .leave ctx
      swapElems α s parent idx
      return .again (parent, ctx)
    else
      return .leave ctx)
    (s.len + 1) (idx, ctx)

/-- `tda_span_make_heap`. -/
def makeHeap (s : Span) (cmp : Cmp α C) (ctx : C) : Run (SpanMem α) C := do
  assertSpan s
  Run.loop (fun (vars : Nat × C) => do
    let (i, ctx) := vars
    if i > 0 then
      let idx ← exactSub i 1
      let ctx ← siftDown s idx s.len cmp ctx
      let next ← exactSub i 1
      return .again (next, ctx)
    else
      return .leave ctx)
    (s.len + 1) (s.len / 2, ctx)

/-- `tda_span_push_heap`. -/
def pushHeap (s : Span) (cmp : Cmp α C) (ctx : C) : Run (SpanMem α) C := do
  assertSpan s
  Run.require (s.len > 0)
  let last ← exactSub s.len 1
  siftUp s last cmp ctx

/-- `tda_span_pop_heap`. -/
def popHeap (s : Span) (cmp : Cmp α C) (ctx : C) : Run (SpanMem α) C := do
  assertSpan s
  Run.require (s.len > 0)
  if s.len = 1 then
    return ctx
  let last ← exactSub s.len 1
  swapElems α s 0 last
  let len ← exactSub s.len 1
  siftDown s 0 len cmp ctx

/-- `tda_span_sort_heap`. -/
def sortHeap (s : Span) (cmp : Cmp α C) (ctx : C) : Run (SpanMem α) C := do
  assertSpan s
  Run.loop (fun (vars : Nat × C) => do
    let (len, ctx) := vars
    if len > 1 then
      let front ← sub s 0 len
      let ctx ← popHeap front cmp ctx
      let next ← exactSub len 1
      return .again (next, ctx)
    else
      return .leave ctx)
    (s.len + 1) (s.len, ctx)

theorem heapLeft_eq {S : Type} (small : 2 * idx + 1 < sizeRange) :
    heapLeft (S := S) idx = pure (Span.heapLeft idx) := by
  rw [heapLeft, exactMul_eq (by omega), pure_bind, exactAdd_eq small]
  rfl

theorem heapParent_eq {S : Type} : heapParent (S := S) idx = Span.heapParent idx := by
  refine Run.bind_congr_require fun some_ => ?_
  rw [exactSub_eq some_, pure_bind]

/-- The best child is below the length, which the left one is. -/
theorem yields_bestChild (inner : Span.heapLeft idx < len) :
    Run.Yields (Span.bestChild s idx len cmp ctx) fun result => result.1 < len := by
  refine Run.Yields.ite (fun two => Run.Yields.after fun answer => Run.Yields.pure ?_) fun _ => Run.Yields.pure inner
  split
  · exact inner
  · exact two

theorem bestChild_eq (inner : Span.heapLeft idx < len) (small : len < sizeRange) :
    bestChild s (Span.heapLeft idx) len cmp ctx = Span.bestChild s idx len cmp ctx := by
  rw [bestChild, exactAdd_eq (by omega), pure_bind]
  rfl

theorem siftDown_eq (small : 2 * s.len + 1 < sizeRange) (within : idx ≤ len) :
    siftDown s idx len cmp ctx = Span.siftDown s idx len cmp ctx := by
  refine Run.bind_congr_require fun inside => Run.loop_congr (fun vars => vars.1 ≤ len) ?_ ?_ within
  · rintro ⟨idx, ctx⟩ within
    dsimp only at within ⊢
    rw [heapLeft_eq (by omega), pure_bind]
    refine Run.ite_congr_run (fun _ => rfl) fun inner => ?_
    rw [bestChild_eq (Nat.lt_of_not_ge inner) (by omega)]
  · rintro ⟨idx, ctx⟩ _
    refine Run.Yields.ite (fun _ => Run.Yields.pure trivial) fun inner => ?_
    refine Run.Yields.bind (yields_bestChild (Nat.lt_of_not_ge inner)) fun best below => ?_
    refine Run.Yields.after fun answer => Run.Yields.ite (fun _ => Run.Yields.pure trivial) fun _ => ?_
    exact Run.Yields.after fun _ => Run.Yields.pure (Nat.le_of_lt below)

theorem siftUp_eq : siftUp s idx cmp ctx = Span.siftUp s idx cmp ctx := by
  unfold siftUp Span.siftUp
  simp only [heapParent_eq]

theorem makeHeap_eq (small : 2 * s.len + 1 < sizeRange) : makeHeap s cmp ctx = Span.makeHeap s cmp ctx := by
  refine Run.bind_congr fun _ => Run.loop_congr (fun vars => vars.1 ≤ s.len) ?_ ?_ (Nat.div_le_self _ _)
  · rintro ⟨i, ctx⟩ within
    refine Run.ite_congr_run (fun some_ => ?_) fun _ => rfl
    rw [exactSub_eq some_, pure_bind, siftDown_eq small (by dsimp only at within; omega)]
    simp only [pure_bind]
  · rintro ⟨i, ctx⟩ within
    refine Run.Yields.ite (fun _ => Run.Yields.after fun next => Run.Yields.pure ?_) fun _ => Run.Yields.pure trivial
    exact Nat.le_trans (Nat.sub_le _ _) within

theorem pushHeap_eq : pushHeap s cmp ctx = Span.pushHeap s cmp ctx := by
  refine Run.bind_congr fun _ => Run.bind_congr_require fun some_ => ?_
  rw [exactSub_eq some_, pure_bind, siftUp_eq]

theorem popHeap_eq (small : 2 * s.len + 1 < sizeRange) : popHeap s cmp ctx = Span.popHeap s cmp ctx := by
  refine Run.bind_congr fun _ => Run.bind_congr_require fun some_ => ?_
  refine Run.ite_congr_run (fun _ => rfl) fun _ => ?_
  simp only [exactSub_eq some_, pure_bind, siftDown_eq small (Nat.zero_le _)]

/-- A part has as many elems as are asked for. -/
theorem yields_sub {S : Type} : Run.Yields (sub (S := S) s idx count) fun part => part.len = count :=
  Run.Yields.after fun _ => Run.Yields.after fun _ => Run.Yields.after fun _ => Run.Yields.pure rfl

theorem sortHeap_eq (small : 2 * s.len + 1 < sizeRange) : sortHeap s cmp ctx = Span.sortHeap s cmp ctx := by
  refine Run.bind_congr fun _ => Run.loop_congr (fun vars => vars.1 ≤ s.len) ?_ ?_ (Nat.le_refl _)
  · rintro ⟨len, ctx⟩ within
    refine Run.ite_congr_run (fun more => Run.bind_congr_yields yields_sub fun front size => ?_) fun _ => rfl
    dsimp only at within
    rw [popHeap_eq (by omega), exactSub_eq (Nat.le_of_lt more)]
    simp only [pure_bind]
  · rintro ⟨len, ctx⟩ within
    refine Run.Yields.ite (fun _ => Run.Yields.after fun front => ?_) fun _ => Run.Yields.pure trivial
    exact Run.Yields.after fun next => Run.Yields.pure (Nat.le_trans (Nat.sub_le _ _) within)

end Heaping

/-! ## The sorts -/

section Sorting

variable {α C : Type} {s src dst : Span} {cmp : Cmp α C} {ctx : C} {al : Al}
  {left right pivotIdx a b c i len width depth bound : Nat}

/-- The body of a pass of `tda_span_sort_stable`. -/
def mergePair (src dst : Span) (len width i : Nat) (cmp : Cmp α C) (ctx : C) : Run (SpanMem α) C := do
  let middle ← exactAdd i width
  let mid := if middle < len then middle else len
  let behind ← exactAdd i (← exactMul 2 width)
  let end_ := if behind < len then behind else len
  let whole ← sub dst i (← exactSub end_ i)
  let left ← sub src i (← exactSub mid i)
  let right ← sub src mid (← exactSub end_ mid)
  merge whole left right cmp ctx

/-- A pass of `tda_span_sort_stable`. -/
def mergePass (src dst : Span) (len width : Nat) (cmp : Cmp α C) (ctx : C) : Run (SpanMem α) C :=
  Run.loop (fun (vars : Nat × C) => do
    let (i, ctx) := vars
    if i < len then
      let ctx ← mergePair src dst len width i cmp ctx
      let next ← exactAdd i (← exactMul 2 width)
      return .again (next, ctx)
    else
      return .leave ctx)
    (len + 1) (0, ctx)

/-- `tda_span_sort_stable`. -/
def sortStable (s : Span) (cmp : Cmp α C) (ctx : C) (al : Al) : Run (SpanMem α) (Status × C) := do
  assertSpan s
  Run.require (al.isSome = true)
  if s.len < 2 then
    return (.ok, ctx)
  let bufLayout := elemsLayout s.elem s.len
  match ← alloc al bufLayout (List.replicate (bufLayout.size / s.elem.size) none) with
  | none => return (.errNoMem, ctx)
  | some buf => do
      let scratch := whole buf s.elem s.len
      assertSpan scratch
      let vars ← Run.loop (fun (vars : Passing C) => do
        if vars.width < s.len then
          let ctx ← mergePass vars.src vars.dst s.len vars.width cmp vars.ctx
          let width ← exactMul vars.width 2
          return .again ⟨width, vars.dst, vars.src, ctx⟩
        else
          return .leave vars)
        (s.len + 1) ⟨1, s, scratch, ctx⟩
      -- an odd number of passes leaves the result in the buffer
      if vars.src.data ≠ s.data ∨ vars.src.start ≠ s.start then
        copy α s vars.src
      dealloc al (some buf) bufLayout
      return (.ok, vars.ctx)

/-- `closed_range`. -/
def closedRange {S : Type} (s : Span) (left right : Nat) : Run S Span := do
  let count ← exactAdd (← exactSub right left) 1
  sub s left count

/-- `ninther`. -/
def ninther (s : Span) (left right : Nat) (cmp : Cmp α C) (ctx : C) : Run (SpanMem α) (Nat × C) := do
  let len ← exactAdd (← exactSub right left) 1
  let mid ← exactAdd left (len / 2)
  let step := len / 8
  let (lo, ctx) ← median3 s left (← exactAdd left step) (← exactAdd left (← exactMul 2 step)) cmp ctx
  let (md, ctx) ← median3 s (← exactSub mid step) mid (← exactAdd mid step) cmp ctx
  let (hi, ctx) ← median3 s (← exactSub right (← exactMul 2 step)) (← exactSub right step) right cmp ctx
  median3 s lo md hi cmp ctx

/-- The body of the loop in `partition3`. -/
def partitionRound (s : Span) (cmp : Cmp α C) (vars : Partitioning C) :
    Run (SpanMem α) (Run.Round (Partitioning C) (Split × C)) := do
  if vars.i ≤ vars.hi then
    let elem ← get s vars.i
    let pivot ← get s vars.lo
    let (order, ctx) := cmp elem pivot vars.ctx
    if order < 0 then
      swapElems α s vars.i vars.lo
      let lo ← exactAdd vars.lo 1
      let i ← exactAdd vars.i 1
      return .again ⟨lo, i, vars.hi, ctx⟩
    else if order > 0 then
      swapElems α s vars.i vars.hi
      let hi ← exactSub vars.hi 1
      return .again ⟨vars.lo, vars.i, hi, ctx⟩
    else
      let i ← exactAdd vars.i 1
      return .again ⟨vars.lo, i, vars.hi, ctx⟩
  else
    return .leave (⟨vars.lo, vars.hi⟩, vars.ctx)

/-- `partition3`. -/
def partition3 (s : Span) (left right pivotIdx : Nat) (cmp : Cmp α C) (ctx : C) : Run (SpanMem α) (Split × C) := do
  Run.require (left ≤ pivotIdx ∧ pivotIdx ≤ right)
  swapElems α s left pivotIdx
  let i ← exactAdd left 1
  Run.loop (partitionRound s cmp) (right - left + 1) ⟨left, i, right, ctx⟩

/-- `depth_limit`. -/
def depthLimit {S : Type} (len : Nat) : Run S Nat := do
  Run.require (len > 1)
  let levels ← bitLog2Floor len
  exactMul 2 levels

/-- `quicksort`. -/
def quicksort : (bound : Nat) -> (s : Span) -> (left right depth : Nat) -> (cmp : Cmp α C) -> C -> Run (SpanMem α) C
  | 0, _, _, _, _, _, _ => failure
  | bound + 1, s, left, right, depth, cmp, ctx => do
      if left < right then
        let count ← exactAdd (← exactSub right left) 1
        if count ≤ insertionThreshold then
          let range ← closedRange s left right
          insertionSort range cmp ctx
        else if depth = 0 then
          let range ← closedRange s left right
          let ctx ← makeHeap range cmp ctx
          sortHeap range cmp ctx
        else
          let depth ← exactSub depth 1
          let (pivotIdx, ctx) ← ninther s left right cmp ctx
          let (split, ctx) ← partition3 s left right pivotIdx cmp ctx
          let lt := split.lt
          let gt := split.gt
          if (← exactSub lt left) < (← exactSub right gt) then
            let ctx ← (if lt > left then do quicksort bound s left (← exactSub lt 1) depth cmp ctx else pure ctx)
            quicksort bound s (← exactAdd gt 1) right depth cmp ctx
          else
            let ctx ← (if gt < right then do quicksort bound s (← exactAdd gt 1) right depth cmp ctx else pure ctx)
            if lt = left then
              return ctx
            quicksort bound s left (← exactSub lt 1) depth cmp ctx
      else
        return ctx

/-- `tda_span_sort`. -/
def sort (s : Span) (cmp : Cmp α C) (ctx : C) : Run (SpanMem α) C := do
  assertSpan s
  if s.len < 2 then
    return ctx
  let last ← exactSub s.len 1
  let depth ← depthLimit s.len
  quicksort s.len s 0 last depth cmp ctx

/-! ## The passes -/

theorem mergePair_eq (small : 2 * len + 1 < sizeRange) (narrow : width < len) (more : i < len)
    (start : i = 0 ∨ 2 * width ≤ i) :
    mergePair src dst len width i cmp ctx = Span.mergePair src dst len width i cmp ctx := by
  have clipped : forall next, (if next < len then next else len) = min next len := by
    intro next
    split <;> omega
  unfold mergePair Span.mergePair
  simp (disch := omega) only [clipped, wrapAdd_eq, wrapMul_eq, exactAdd_eq, exactMul_eq, exactSub_eq, pure_bind]

theorem mergePass_eq (small : 2 * len + 1 < sizeRange) (narrow : width < len) :
    mergePass src dst len width cmp ctx = Span.mergePass src dst len width cmp ctx := by
  refine Run.loop_congr (fun vars => vars.1 = 0 ∨ 2 * width ≤ vars.1) ?_ ?_ (Or.inl rfl)
  · rintro ⟨i, ctx⟩ start
    refine Run.ite_congr_run (fun more => ?_) fun _ => rfl
    dsimp only at start
    rw [mergePair_eq small narrow more start]
    simp (disch := omega) only [wrapAdd_eq, wrapMul_eq, exactAdd_eq, exactMul_eq, pure_bind]
  · rintro ⟨i, ctx⟩ start
    refine Run.Yields.ite (fun more => Run.Yields.after fun next => Run.Yields.pure (Or.inr ?_)) fun _ =>
      Run.Yields.pure trivial
    dsimp only at start ⊢
    rw [wrapMul_eq (by omega), wrapAdd_eq (by omega)]
    exact Nat.le_add_left _ _

theorem sortStable_eq (small : 2 * s.len + 1 < sizeRange) :
    sortStable s cmp ctx al = Span.sortStable s cmp ctx al := by
  refine Run.bind_congr fun _ => Run.bind_congr fun _ => Run.ite_congr_run (fun _ => rfl) fun _ => ?_
  refine Run.bind_congr fun granted => ?_
  cases granted with
  | none => rfl
  | some buf =>
      refine Run.bind_congr fun _ => ?_
      refine congrArg (· >>= _) (Run.loop_congr (fun _ => True) (fun vars _ => ?_) (fun vars _ => ?_) trivial)
      · refine Run.ite_congr_run (fun narrow => ?_) fun _ => rfl
        simp (disch := omega) only [mergePass_eq small narrow, wrapMul_eq, exactMul_eq, pure_bind]
      · refine Run.Yields.ite (fun _ => Run.Yields.after fun ctx => ?_) fun _ => Run.Yields.pure trivial
        exact Run.Yields.pure trivial

/-! ## The pivot and the split -/

theorem closedRange_eq {S : Type} (ordered : left ≤ right) (small : right + 1 < sizeRange) :
    closedRange (S := S) s left right = Span.closedRange s left right := by
  rw [closedRange, exactSub_eq ordered, pure_bind, exactAdd_eq (by omega), pure_bind]
  rfl

theorem ninther_eq (ordered : left ≤ right) (small : right + 1 < sizeRange) :
    ninther s left right cmp ctx = Span.ninther s left right cmp ctx := by
  unfold ninther Span.ninther
  simp (disch := omega) only [exactAdd_eq, exactMul_eq, exactSub_eq, pure_bind]

/-- The order that the variables of `partition3` keep. -/
structure Between (left right : Nat) (vars : Partitioning C) : Prop where
  first : left ≤ vars.lo
  ordered : vars.lo < vars.i
  reach : vars.i ≤ vars.hi + 1
  last : vars.hi ≤ right

theorem yields_partitionRound {vars : Partitioning C} (between : Between left right vars) :
    Run.Yields (Span.partitionRound s cmp vars) (Run.Round.Meets (Between left right) fun result =>
      left ≤ result.1.lt ∧ result.1.lt ≤ result.1.gt ∧ result.1.gt ≤ right) := by
  rcases between with ⟨first, ordered, reach, last⟩
  refine Run.Yields.ite (fun more => ?_) fun met => Run.Yields.pure ⟨first, by dsimp only; omega, last⟩
  refine Run.Yields.after fun elem => Run.Yields.after fun pivot => ?_
  refine Run.Yields.ite (fun _ => Run.Yields.after fun _ => Run.Yields.pure ?_) fun _ =>
    Run.Yields.ite (fun _ => Run.Yields.after fun _ => Run.Yields.pure ?_) fun _ => Run.Yields.pure ?_
  · exact ⟨by dsimp only; omega, by dsimp only; omega, by dsimp only; omega, last⟩
  · exact ⟨first, ordered, by dsimp only; omega, by dsimp only; omega⟩
  · exact ⟨first, by dsimp only; omega, by dsimp only; omega, last⟩

theorem partitionRound_eq {vars : Partitioning C} (small : right + 1 < sizeRange)
    (between : Between left right vars) : partitionRound s cmp vars = Span.partitionRound s cmp vars := by
  rcases between with ⟨first, ordered, reach, last⟩
  unfold partitionRound Span.partitionRound
  refine Run.ite_congr_run (fun more => ?_) fun _ => rfl
  simp (disch := omega) only [exactAdd_eq, exactSub_eq, pure_bind]

theorem between_start (ordered : left ≤ right) : Between left right (⟨left, left + 1, right, ctx⟩ : Partitioning C) :=
  ⟨Nat.le_refl _, Nat.lt_succ_self _, Nat.succ_le_succ ordered, Nat.le_refl _⟩

theorem partition3_eq (small : right + 1 < sizeRange) :
    partition3 s left right pivotIdx cmp ctx = Span.partition3 s left right pivotIdx cmp ctx := by
  refine Run.bind_congr_require fun inside => Run.bind_congr fun _ => ?_
  have ordered := Nat.le_trans inside.1 inside.2
  rw [exactAdd_eq (by omega), pure_bind]
  refine Run.loop_congr (Between left right) (fun vars between => partitionRound_eq small between) ?_
    (between_start ordered)
  exact fun vars between => (yields_partitionRound between).mono fun round meets => meets.leave

theorem yields_partition3 : Run.Yields (Span.partition3 s left right pivotIdx cmp ctx) fun result =>
    left ≤ result.1.lt ∧ result.1.lt ≤ result.1.gt ∧ result.1.gt ≤ right := by
  refine Run.Yields.checked fun inside => Run.Yields.after fun _ => ?_
  exact Run.Yields.loop (Between left right) (fun vars between => yields_partitionRound between)
    (between_start (Nat.le_trans inside.1 inside.2))

/-! ## Quicksort -/

theorem depthLimit_eq {S : Type} (small : 2 * len + 1 < sizeRange) :
    depthLimit (S := S) len = Span.depthLimit len := by
  refine Run.bind_congr fun _ => ?_
  have few := Nat.log2_le_self len
  simp only [bitLog2Floor, bind_assoc, pure_bind]
  rw [exactMul_eq (by omega)]

/-- A call has room for the range, and so have the calls on its two sides. -/
theorem quicksort_eq (small : 2 * (right + 1) + 1 < sizeRange) :
    quicksort bound s left right depth cmp ctx = Span.quicksort bound s left right depth cmp ctx := by
  induction bound generalizing left right depth ctx with
  | zero => rfl
  | succ bound ih =>
      rw [quicksort, Span.quicksort]
      refine Run.ite_congr_run (fun more => ?_) fun _ => rfl
      have ordered := Nat.le_of_lt more
      have range_eq := closedRange_eq (S := SpanMem α) (s := s) ordered (by omega)
      rw [exactSub_eq ordered, pure_bind, exactAdd_eq (by omega), pure_bind, range_eq]
      refine Run.ite_congr_run (fun _ => rfl) fun _ => Run.ite_congr_run (fun _ => ?_) fun deep => ?_
      · refine Run.bind_congr_yields yields_sub fun range size => ?_
        rw [makeHeap_eq (by omega)]
        exact Run.bind_congr fun ctx => sortHeap_eq (by omega)
      · rw [exactSub_eq (Nat.pos_of_ne_zero deep), pure_bind, ninther_eq ordered (by omega)]
        refine Run.bind_congr ?_
        rintro ⟨pivotIdx, ctx⟩
        dsimp only
        rw [partition3_eq (by omega)]
        refine Run.bind_congr_yields yields_partition3 ?_
        rintro ⟨⟨lt, gt⟩, ctx⟩ ⟨first, middle, last⟩
        dsimp only at first middle last ⊢
        rw [exactSub_eq first, pure_bind, exactSub_eq last, pure_bind]
        have below : forall {depth ctx}, left < lt ->
            (exactSub lt 1 >>= fun upTo => quicksort bound s left upTo depth cmp ctx) =
              Span.quicksort bound s left (lt - 1) depth cmp ctx := by
          intro depth ctx some_
          rw [exactSub_eq (Nat.succ_le_of_lt (Nat.zero_lt_of_lt some_)), pure_bind]
          exact ih (by omega)
        have above : forall {depth ctx},
            (exactAdd gt 1 >>= fun from_ => quicksort bound s from_ right depth cmp ctx) =
              Span.quicksort bound s (gt + 1) right depth cmp ctx := by
          intro depth ctx
          rw [exactAdd_eq (by omega), pure_bind]
          exact ih small
        refine Run.ite_congr_run (fun _ => ?_) fun _ => ?_
        · rw [Run.ite_congr_run below fun _ => rfl]
          exact Run.bind_congr fun ctx => above
        · rw [Run.ite_congr_run (fun _ => above) fun _ => rfl]
          refine Run.bind_congr fun ctx => Run.ite_congr_run (fun _ => rfl) fun some_ => ?_
          exact below (by omega)

theorem sort_eq (small : 2 * s.len + 1 < sizeRange) : sort s cmp ctx = Span.sort s cmp ctx := by
  refine Run.bind_congr fun _ => Run.ite_congr_run (fun _ => rfl) fun long => ?_
  rw [exactSub_eq (by omega), pure_bind, depthLimit_eq small]
  exact Run.bind_congr fun depth => quicksort_eq (by omega)

end Sorting

end Exact
end Span
end TerseDsa
