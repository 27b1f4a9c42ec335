import TerseDsa.Algo.Permute
import TerseDsa.Foundation.BinaryHeap
import TerseDsa.Foundation.Rearranging

namespace TerseDsa

open Foundation Run Foundation.BinaryHeap

/-!
# `algo/heap`

A max-heap laid out in the span itself, and the sifts of `internal/heap`.
Whatever the comparator answers, every one of these functions ends and leaves
the elems in another order; where it orders the elems, they are the heap
operations.
-/

namespace Span

variable {α C : Type} {heap : SpanMem α} {span : Span} {elems now : List α} {cmp : Cmp α C} {ctx : C}
  {order : α -> α -> Int} {i j lo hi idx len : Nat}

/-- `tda_heap_parent`. -/
def heapParent {S : Type} (idx : Nat) : Run S Nat := do
  require (idx > 0)
  return (idx - 1) / 2

/-- `tda_heap_left`. -/
def heapLeft (idx : Nat) : Nat := 2 * idx + 1

/-- `tda_heap_above`. -/
def heapAbove (s : Span) (upper lower : Nat) (cmp : Cmp α C) (ctx : C) : Run (SpanMem α) (Bool × C) := do
  let up ← get s upper
  let low ← get s lower
  let (order, ctx) := cmp up low ctx
  return (decide (order ≥ 0), ctx)

/-- What `tda_heap_sift_down` calls `best`: of the children, the one that the other may sit below. -/
def bestChild (s : Span) (idx len : Nat) (cmp : Cmp α C) (ctx : C) : Run (SpanMem α) (Nat × C) := do
  let left := heapLeft idx
  let right := left + 1
  if right < len then
    let (above, ctx) ← heapAbove s left right cmp ctx
    return (if above then left else right, ctx)
  else
    return (left, ctx)

/-- `tda_heap_sift_down`. -/
def siftDown (s : Span) (idx len : Nat) (cmp : Cmp α C) (ctx : C) : Run (SpanMem α) C := do
  require (len ≤ s.len)
  loop (fun (vars : Nat × C) => do
    let (idx, ctx) := vars
    if heapLeft idx ≥ len then
      return .leave ctx
    let (best, ctx) ← bestChild s idx len cmp ctx
    let (above, ctx) ← heapAbove s idx best cmp ctx
    if above then
      return .leave ctx
    swapElems α s idx best
    return .again (best, ctx))
    (len + 1) (idx, ctx)

/-- `tda_heap_sift_up`. -/
def siftUp (s : Span) (idx : Nat) (cmp : Cmp α C) (ctx : C) : Run (SpanMem α) C :=
  loop (fun (vars : Nat × C) => do
    let (idx, ctx) := vars
    if idx > 0 then
      let parent ← heapParent idx
      let (above, ctx) ← heapAbove s parent idx cmp ctx
      if above then
        return .leave ctx
      swapElems α s parent idx
      return .again (parent, ctx)
    else
      return .leave ctx)
    (s.len + 1) (idx, ctx)

/-- `tda_span_make_heap`. -/
def makeHeap (s : Span) (cmp : Cmp α C) (ctx : C) : Run (SpanMem α) C := do
  assertSpan s
  loop (fun (vars : Nat × C) => do
    let (i, ctx) := vars
    if i > 0 then
      let ctx ← siftDown s (i - 1) s.len cmp ctx
      return .again (i - 1, ctx)
    else
      return .leave ctx)
    (s.len + 1) (s.len / 2, ctx)

/-- `tda_span_push_heap`. -/
def pushHeap (s : Span) (cmp : Cmp α C) (ctx : C) : Run (SpanMem α) C := do
  assertSpan s
  require (s.len > 0)
  siftUp s (s.len - 1) cmp ctx

/-- `tda_span_pop_heap`. -/
def popHeap (s : Span) (cmp : Cmp α C) (ctx : C) : Run (SpanMem α) C := do
  assertSpan s
  require (s.len > 0)
  if s.len = 1 then
    return ctx
  swapElems α s 0 (s.len - 1)
  siftDown s 0 (s.len - 1) cmp ctx

/-- `tda_span_sort_heap`. -/
def sortHeap (s : Span) (cmp : Cmp α C) (ctx : C) : Run (SpanMem α) C := do
  assertSpan s
  loop (fun (vars : Nat × C) => do
    let (len, ctx) := vars
    if len > 1 then
      let front ← sub s 0 len
      let ctx ← popHeap front cmp ctx
      return .again (len - 1, ctx)
    else
      return .leave ctx)
    (s.len + 1) (s.len, ctx)

/-- `tda_span_is_heap_until`. -/
def isHeapUntil (s : Span) (cmp : Cmp α C) (ctx : C) : Run (SpanMem α) (Nat × C) := do
  assertSpan s
  loop (fun (vars : Nat × C) => do
    let (child, ctx) := vars
    if child < s.len then
      let parent ← heapParent child
      let (above, ctx) ← heapAbove s parent child cmp ctx
      if above then
        return .again (child + 1, ctx)
      else
        return .leave (child, ctx)
    else
      return .leave (s.len, ctx))
    (s.len + 1) (1, ctx)

/-- `tda_span_is_heap`. -/
def isHeap (s : Span) (cmp : Cmp α C) (ctx : C) : Run (SpanMem α) (Bool × C) := do
  assertSpan s
  let (until_, ctx) ← isHeapUntil s cmp ctx
  return (decide (until_ = s.len), ctx)

/-! ## The shape -/

theorem ends_heapParent {S : Type} (some_ : 0 < idx) {s : S} {post : Nat -> S -> Prop} :
    Ends (heapParent idx) s post <-> post (parent idx) s := by
  simp only [heapParent, ends_bind, ends_require, gt_iff_lt, some_, true_and, ends_pure]
  rfl

theorem rearranged_exchanged (first : lo ≤ i ∧ i < hi) (second : lo ≤ j ∧ j < hi) (within : hi ≤ elems.length) :
    Rearranged lo hi elems (exchanged elems i j) := by
  refine ⟨exchanged_perm i j, fun idx out => ?_⟩
  rw [getElem?_exchanged (by omega) (by omega), if_neg (by omega), if_neg (by omega)]

theorem keys_exchanged (first : i < elems.length) (second : j < elems.length) :
    (fun idx => (exchanged elems i j)[idx]?) = (fun idx => elems[idx]?) ∘ Equiv.swap i j := by
  funext idx
  rw [getElem?_exchanged first second, Function.comp_apply]
  by_cases atSecond : idx = j
  · rw [if_pos atSecond, atSecond, Equiv.swap_apply_right]
  · rw [if_neg atSecond]
    by_cases atFirst : idx = i
    · rw [if_pos atFirst, atFirst, Equiv.swap_apply_left]
    · rw [if_neg atFirst, Equiv.swap_apply_of_ne_of_ne atFirst atSecond]

/-- The ranks of what is at the places of a row. -/
abbrev keyLe (order : α -> α -> Int) : Option α -> Option α -> Prop := optionLe (Cmp.le order)

/-- The one order rule of the heap, asked of two places of the span. -/
theorem ends_heapAbove {upper lower : Nat} (holds : Holds heap.blocks span elems) (up : upper < elems.length)
    (low : lower < elems.length) {post : Bool × C -> SpanMem α -> Prop}
    (done : forall above ctx, (forall order, cmp.Orders order ->
      (above = true <-> keyLe order elems[lower]? elems[upper]?)) -> post (above, ctx) heap) :
    Ends (heapAbove span upper lower cmp ctx) heap post := by
  simp only [heapAbove, ends_bind, ends_get holds up, ends_get holds low, ends_pure]
  apply done
  intro order orders
  have signs := orders.antisymm elems[upper] elems[lower]
  rw [decide_eq_true_eq, orders.answers, List.getElem?_eq_getElem up, List.getElem?_eq_getElem low]
  have asked : keyLe order (some elems[lower]) (some elems[upper]) <-> order elems[lower] elems[upper] ≤ 0 := Iff.rfl
  rw [asked]
  omega

/-- The best child is not before any child there is. -/
theorem ends_bestChild (holds : Holds heap.blocks span elems) (within : len ≤ elems.length) (inner : heapLeft idx < len)
    {post : Nat × C -> SpanMem α -> Prop}
    (done : forall best ctx, 0 < best -> best < len -> parent best = idx -> (forall order, cmp.Orders order ->
      forall child, 0 < child -> child < len -> parent child = idx -> keyLe order elems[child]? elems[best]?) ->
      post (best, ctx) heap) :
    Ends (bestChild span idx len cmp ctx) heap post := by
  have someLeft : 0 < heapLeft idx := Nat.succ_pos _
  rw [bestChild, ends_ite]
  constructor
  · intro two
    rw [ends_bind]
    apply ends_heapAbove holds (by omega) (by omega)
    intro above ctx answers
    rw [ends_pure]
    cases above with
    | true =>
        refine done _ ctx someLeft inner parent_left fun order orders child some_ inside isChild => ?_
        rcases (parent_eq_iff some_).mp isChild with rfl | rfl
        · exact (optionLe_preorder orders.preorder).refl _
        · exact (answers order orders).mp rfl
    | false =>
        refine done _ ctx (Nat.succ_pos _) two parent_right fun order orders child some_ inside isChild => ?_
        rcases (parent_eq_iff some_).mp isChild with rfl | rfl
        · have behind : ¬ keyLe order elems[heapLeft idx + 1]? elems[heapLeft idx]? := fun le =>
            Bool.false_ne_true ((answers order orders).mpr le)
          exact (optionLe_preorder orders.preorder).of_not behind
        · exact (optionLe_preorder orders.preorder).refl _
  · intro one
    rw [ends_pure]
    refine done _ ctx someLeft inner parent_left fun order orders child some_ inside isChild => ?_
    rcases (parent_eq_iff some_).mp isChild with rfl | rfl
    · exact (optionLe_preorder orders.preorder).refl _
    · exact absurd inside one

/-- Sifting down repairs heaps under a place that may be wrong, and leaves what is behind them. -/
theorem ends_siftDown (holds : Holds heap.blocks span elems) (within : len ≤ elems.length)
    {post : C -> SpanMem α -> Prop}
    (done : forall now ctx (later : SpanMem α), later.blocks = place heap.blocks span now ->
      Rearranged 0 len elems now ->
      (forall order first, cmp.Orders order -> Sinking (keyLe order) (fun idx => elems[idx]?) first len idx ->
        HeapFrom (keyLe order) (fun idx => now[idx]?) first len) -> post ctx later) :
    Ends (siftDown span idx len cmp ctx) heap post := by
  have length := holds.length
  simp only [siftDown, ends_bind, ends_require, (by omega : len ≤ span.len), true_and]
  refine ends_loop (fun rounds (vars : Nat × C) mid => exists now,
    mid.blocks = place heap.blocks span now ∧ Rearranged 0 len elems now ∧ rounds = len - vars.1 ∧
      forall order first, cmp.Orders order -> Sinking (keyLe order) (fun idx => elems[idx]?) first len idx ->
        Sinking (keyLe order) (fun idx => now[idx]?) first len vars.1) ?_
    ⟨elems, holds.place_same.symm, Rearranged.refl 0 len elems, rfl, fun _ _ _ sinking => sinking⟩
    (Nat.lt_succ_of_le (Nat.sub_le len idx))
  rintro rounds ⟨hole, ctx⟩ mid ⟨now, put, rearranged, rfl, sinks⟩
  dsimp only at sinks ⊢
  have lengthNow := rearranged.length
  have holdsNow : Holds mid.blocks span now := by
    rw [put]
    exact holds.placed lengthNow
  rw [ends_ite]
  constructor
  · intro leaf
    rw [ends_pure]
    refine done now ctx mid put rearranged fun order first orders start => (sinks order first orders start).done ?_
    intro child some_ inside isChild
    rcases (parent_eq_iff some_).mp isChild with rfl | rfl
    · exact absurd inside (Nat.not_lt.mpr leaf)
    · exact absurd (Nat.lt_of_succ_lt inside) (Nat.not_lt.mpr leaf)
  · intro inner
    rw [ends_bind]
    apply ends_bestChild holdsNow (by omega) (Nat.lt_of_not_ge inner)
    intro best ctx some_ inside isChild greatest
    have below : hole < best := isChild ▸ parent_lt some_
    rw [ends_bind]
    apply ends_heapAbove holdsNow (by omega) (by omega)
    intro above ctx answers
    rw [ends_ite]
    constructor
    · intro settled
      rw [ends_pure]
      refine done now ctx mid put rearranged fun order first orders start => (sinks order first orders start).done ?_
      intro child positive within isChild
      exact (optionLe_preorder orders.preorder).trans (greatest order orders child positive within isChild)
        ((answers order orders).mp settled)
    · intro wrong
      rw [ends_bind]
      apply ends_swapElems holdsNow (by omega) (by omega)
      intro later swapped
      rw [ends_pure]
      refine ⟨len - best, by omega, exchanged now hole best, ?_, ?_, rfl, ?_⟩
      · rw [swapped, put, holds.place_place lengthNow ((length_exchanged _ _).trans lengthNow)]
      · exact rearranged.trans (rearranged_exchanged ⟨Nat.zero_le _, by omega⟩ ⟨Nat.zero_le _, inside⟩ (by omega))
      · intro order first orders start
        have behind : ¬ keyLe order now[best]? now[hole]? := fun le => wrong ((answers order orders).mpr le)
        dsimp only
        rw [keys_exchanged (by omega) (by omega)]
        exact (sinks order first orders start).step some_ inside isChild
          ((optionLe_preorder orders.preorder).of_not behind) (greatest order orders)

/-- Sifting up repairs a heap whose last place may be wrong. -/
theorem ends_siftUp (holds : Holds heap.blocks span elems) (inside : idx < elems.length)
    {post : C -> SpanMem α -> Prop}
    (done : forall now ctx (later : SpanMem α), later.blocks = place heap.blocks span now -> now.Perm elems ->
      (forall order, cmp.Orders order -> Rising (keyLe order) (fun idx => elems[idx]?) elems.length idx ->
        RowHeap (Cmp.le order) now) -> post ctx later) :
    Ends (siftUp span idx cmp ctx) heap post := by
  have length := holds.length
  rw [siftUp]
  refine ends_loop (fun rounds (vars : Nat × C) mid => exists now,
    mid.blocks = place heap.blocks span now ∧ now.Perm elems ∧ vars.1 < elems.length ∧ rounds = vars.1 ∧
      forall order, cmp.Orders order -> Rising (keyLe order) (fun idx => elems[idx]?) elems.length idx ->
        Rising (keyLe order) (fun idx => now[idx]?) elems.length vars.1) ?_
    ⟨elems, holds.place_same.symm, List.Perm.refl elems, inside, rfl, fun _ _ rising => rising⟩ (by omega)
  rintro hole ⟨_, ctx⟩ mid ⟨now, put, perm, within, rfl, rises⟩
  dsimp only at within rises ⊢
  have lengthNow := perm.length_eq
  have holdsNow : Holds mid.blocks span now := by
    rw [put]
    exact holds.placed lengthNow
  have finish : forall {order}, Heap (keyLe order) (fun idx => now[idx]?) elems.length ->
      RowHeap (Cmp.le order) now := by
    intro order settled
    rw [← lengthNow] at settled
    exact rowHeap_iff.mpr settled
  rw [ends_ite]
  constructor
  · intro some_
    have below := parent_lt some_
    rw [ends_bind, ends_heapParent some_, ends_bind]
    apply ends_heapAbove holdsNow (by omega) (by omega)
    intro above ctx answers
    rw [ends_ite]
    constructor
    · intro settled
      rw [ends_pure]
      refine done now ctx mid put perm fun order orders start => finish ((rises order orders start).done fun _ => ?_)
      exact (answers order orders).mp settled
    · intro wrong
      rw [ends_bind]
      apply ends_swapElems holdsNow (by omega) (by omega)
      intro later swapped
      rw [ends_pure]
      refine ⟨parent hole, below, exchanged now (parent hole) hole, ?_, ?_, by dsimp only; omega, rfl, ?_⟩
      · rw [swapped, put, holds.place_place lengthNow ((length_exchanged _ _).trans lengthNow)]
      · exact (exchanged_perm _ _).trans perm
      · intro order orders start
        have behind : ¬ keyLe order now[hole]? now[parent hole]? := fun le => wrong ((answers order orders).mpr le)
        dsimp only
        rw [keys_exchanged (by omega) (by omega)]
        exact (rises order orders start).step (optionLe_preorder orders.preorder) some_
          ((optionLe_preorder orders.preorder).of_not behind)
  · intro root
    rw [ends_pure]
    exact done now ctx mid put perm fun order orders start =>
      finish ((rises order orders start).done fun some_ => absurd some_ root)

/-! ## The operations -/

theorem ends_makeHeap (holds : Holds heap.blocks span elems) {post : C -> SpanMem α -> Prop}
    (done : forall now ctx (later : SpanMem α), later.blocks = place heap.blocks span now -> now.Perm elems ->
      (forall order, cmp.Orders order -> RowHeap (Cmp.le order) now) -> post ctx later) :
    Ends (makeHeap span cmp ctx) heap post := by
  have length := holds.length
  simp only [makeHeap, ends_bind, ends_assertSpan (Over.asserts holds)]
  refine ends_loop (fun rounds (vars : Nat × C) mid => exists now,
    mid.blocks = place heap.blocks span now ∧ now.Perm elems ∧ rounds = vars.1 ∧
      forall order, cmp.Orders order -> HeapFrom (keyLe order) (fun idx => now[idx]?) vars.1 elems.length) ?_
    ⟨elems, holds.place_same.symm, List.Perm.refl elems, rfl, fun order orders child some_ inside leaf => ?_⟩
    (by omega)
  · rintro i ⟨_, ctx⟩ mid ⟨now, put, perm, rfl, heaps⟩
    dsimp only at heaps ⊢
    have lengthNow := perm.length_eq
    have holdsNow : Holds mid.blocks span now := by
      rw [put]
      exact holds.placed lengthNow
    rw [ends_ite]
    constructor
    · intro some_
      rw [ends_bind]
      apply ends_siftDown holdsNow (Nat.le_of_eq (length.symm.trans lengthNow.symm))
      intro next ctx later sifted rearranged repairs
      rw [ends_pure]
      refine ⟨i - 1, by omega, next, ?_, rearranged.perm.trans perm, rfl, fun order orders => ?_⟩
      · rw [sifted, put, holds.place_place lengthNow (rearranged.length.trans lengthNow)]
      · have repaired := repairs order (i - 1) orders (Sinking.start ?_)
        · rwa [← length] at repaired
        · rw [← length, (by omega : i - 1 + 1 = i)]
          exact heaps order orders
    · intro none_
      rw [ends_pure]
      refine done now ctx mid put perm fun order orders => ?_
      have whole := heaps order orders
      rw [Nat.eq_zero_of_not_pos none_, ← heap_iff, ← lengthNow] at whole
      exact rowHeap_iff.mpr whole
  · -- the places from the middle on have no children
    dsimp only at leaf
    unfold parent at leaf
    omega

theorem ends_pushHeap (holds : Holds heap.blocks span elems) (some_ : elems ≠ []) {post : C -> SpanMem α -> Prop}
    (done : forall now ctx (later : SpanMem α), later.blocks = place heap.blocks span now -> now.Perm elems ->
      (forall order, cmp.Orders order -> RowHeap (Cmp.le order) elems.dropLast -> RowHeap (Cmp.le order) now) ->
      post ctx later) :
    Ends (pushHeap span cmp ctx) heap post := by
  have length := holds.length
  have positive := List.length_pos_of_ne_nil some_
  simp only [pushHeap, ends_bind, ends_assertSpan (Over.asserts holds), ends_require,
    (by omega : span.len > 0), true_and]
  apply ends_siftUp holds (by omega)
  intro now ctx later put perm repairs
  refine done now ctx later put perm fun order orders front => repairs order orders ?_
  rw [List.dropLast_eq_take, rowHeap_take_iff (Nat.sub_le _ _)] at front
  have rising := Rising.start front
  rw [Nat.sub_add_cancel positive] at rising
  rwa [← length]

theorem ends_popHeap (holds : Holds heap.blocks span elems) (some_ : elems ≠ []) {post : C -> SpanMem α -> Prop}
    (done : forall rest top ctx (later : SpanMem α), elems[0]? = some top ->
      later.blocks = place heap.blocks span (rest ++ [top]) ->
      (rest ++ [top]).Perm elems ->
      (forall order, cmp.Orders order -> RowHeap (Cmp.le order) elems ->
        RowHeap (Cmp.le order) rest ∧ forall elem, elem ∈ elems -> Cmp.le order elem top) ->
      post ctx later) :
    Ends (popHeap span cmp ctx) heap post := by
  have length := holds.length
  have positive := List.length_pos_of_ne_nil some_
  simp only [popHeap, ends_bind, ends_assertSpan (Over.asserts holds), ends_require,
    (by omega : span.len > 0), true_and]
  rw [ends_ite]
  constructor
  · intro one
    rcases List.length_eq_one_iff.mp (length.trans one) with ⟨top, rfl⟩
    rw [ends_pure]
    refine done [] top ctx heap rfl holds.place_same.symm (List.Perm.refl _) fun order orders _ => ⟨?_, ?_⟩
    · exact rowHeap_iff.mpr (Heap.short (Nat.zero_le 1))
    · intro elem member
      rw [List.mem_singleton.mp member]
      exact orders.preorder.refl top
  · intro more
    have swappedLength : (exchanged elems 0 (span.len - 1)).length = elems.length := length_exchanged _ _
    rw [ends_bind]
    apply ends_swapElems holds (by omega) (by omega)
    intro mid swapped
    have holdsMid : Holds mid.blocks span (exchanged elems 0 (span.len - 1)) := by
      rw [swapped]
      exact holds.placed swappedLength
    apply ends_siftDown holdsMid (by omega)
    intro now ctx later put rearranged repairs
    have perm := rearranged.perm.trans (exchanged_perm 0 (span.len - 1))
    have lengthNow := perm.length_eq
    have last : now[span.len - 1]? = some elems[0] := by
      rw [rearranged.outside _ (Or.inr (Nat.le_refl _)), getElem?_exchanged (by omega) (by omega), if_pos rfl,
        List.getElem?_eq_getElem]
    have split : now = now.take (span.len - 1) ++ [elems[0]] := by
      have dropped : now.drop (span.len - 1) = [elems[0]] := by
        rw [List.drop_eq_getElem?_toList_append, last, List.drop_eq_nil_of_le (by omega)]
        rfl
      rw [← dropped, List.take_append_drop]
    have root : elems[0]? = some elems[0] := List.getElem?_eq_getElem positive
    refine done (now.take (span.len - 1)) elems[0] ctx later root ?_ (split ▸ perm) fun order orders whole => ⟨?_, ?_⟩
    · rw [← split, put, swapped, holds.place_place swappedLength lengthNow]
    · rw [rowHeap_take_iff (by omega)]
      have before : Heap (keyLe order) (fun idx => elems[idx]?) (span.len - 1) :=
        (rowHeap_iff.mp whole).shorter (by omega)
      refine heap_iff.mpr (repairs order 0 orders (Sinking.of_root before ?_))
      · intro idx some_ inside
        rw [getElem?_exchanged (by omega) (by omega), if_neg (by omega), if_neg (by omega)]
    · exact fun elem member => whole.top_greatest orders.preorder root member

/-- The heap in front and behind it the elems taken out, in order and none of them before one of the heap. -/
structure Drained (le : α -> α -> Prop) (front back : List α) : Prop where
  heap : RowHeap le front
  sorted : back.Pairwise le
  behind : forall low, low ∈ front -> forall up, up ∈ back -> le low up

theorem ends_sortHeap (holds : Holds heap.blocks span elems) {post : C -> SpanMem α -> Prop}
    (done : forall now ctx (later : SpanMem α), later.blocks = place heap.blocks span now -> now.Perm elems ->
      (forall order, cmp.Orders order -> RowHeap (Cmp.le order) elems -> now.Pairwise (Cmp.le order)) ->
      post ctx later) :
    Ends (sortHeap span cmp ctx) heap post := by
  have length := holds.length
  have asserts := Over.asserts holds
  simp only [sortHeap, ends_bind, ends_assertSpan asserts]
  refine ends_loop (fun rounds (vars : Nat × C) mid => exists front back,
    mid.blocks = place heap.blocks span (front ++ back) ∧ (front ++ back).Perm elems ∧ vars.1 = front.length ∧
      rounds = front.length ∧ forall order, cmp.Orders order -> RowHeap (Cmp.le order) elems ->
        Drained (Cmp.le order) front back) ?_
    ⟨elems, [], ?_, ?_, length.symm, rfl, fun order orders whole => ⟨whole, List.Pairwise.nil, ?_⟩⟩ (by omega)
  · rintro rounds ⟨_, ctx⟩ mid ⟨front, back, put, perm, rfl, rfl, drained⟩
    dsimp only
    have lengthNow := perm.length_eq
    have whole : Holds mid.blocks span ([] ++ front ++ back) := by
      rw [put, List.nil_append]
      exact holds.placed lengthNow
    have total := whole.length
    simp only [List.nil_append, List.length_append] at total
    rw [ends_ite]
    constructor
    · intro more
      rw [ends_bind, ends_sub asserts (by omega), ends_bind]
      apply ends_popHeap whole.part (List.ne_nil_of_length_pos (Nat.lt_of_succ_lt more))
      intro rest top ctx later _ popped permPopped takes
      have lengths := permPopped.length_eq
      rw [whole.place_part lengths, List.nil_append, List.append_assoc] at popped
      rw [ends_pure]
      have permNext : (rest ++ ([top] ++ back)).Perm (front ++ back) := by
        rw [← List.append_assoc]
        exact permPopped.append_right back
      rw [List.length_append, List.length_singleton] at lengths
      refine ⟨rest.length, by omega, rest, [top] ++ back, ?_, permNext.trans perm, by dsimp only; omega, rfl, ?_⟩
      · rw [popped, put, holds.place_place lengthNow (permNext.trans perm).length_eq]
      · intro order orders start
        have before := drained order orders start
        rcases takes order orders before.heap with ⟨heap, greatest⟩
        have among : forall {elem}, elem ∈ rest ++ [top] -> elem ∈ front := fun member => permPopped.mem_iff.mp member
        have topIn : top ∈ front := among (List.mem_append_right _ List.mem_cons_self)
        refine ⟨heap, List.pairwise_cons.mpr ⟨fun up member => before.behind top topIn up member, before.sorted⟩, ?_⟩
        intro low member up inBack
        have lowIn := among (List.mem_append_left _ member)
        rcases List.mem_cons.mp inBack with rfl | later
        · exact greatest low lowIn
        · exact before.behind low lowIn up later
    · intro few
      rw [ends_pure]
      refine done (front ++ back) ctx mid put perm fun order orders start => ?_
      rcases drained order orders start with ⟨_, sorted, behind⟩
      rcases short_cases (by omega : front.length < 2) with rfl | ⟨only, rfl⟩
      · exact sorted
      · exact List.pairwise_cons.mpr ⟨fun up member => behind only List.mem_cons_self up member, sorted⟩
  · rw [List.append_nil, holds.place_same]
  · rw [List.append_nil]
  · exact fun _ _ up member => absurd member List.not_mem_nil

theorem ends_isHeapUntil (holds : Holds heap.blocks span elems) {post : Nat × C -> SpanMem α -> Prop}
    (done : forall count ctx, (forall order, cmp.Orders order ->
      IsGreatest {count | count ≤ elems.length ∧ RowHeap (Cmp.le order) (elems.take count)} count) ->
      post (count, ctx) heap) :
    Ends (isHeapUntil span cmp ctx) heap post := by
  have length := holds.length
  have longest : forall {order}, cmp.Orders order -> forall {count}, count ≤ elems.length ->
      Heap (keyLe order) (fun idx => elems[idx]?) count ->
      (count = elems.length ∨ 0 < count ∧ ¬ keyLe order elems[count]? elems[parent count]?) ->
      IsGreatest {count | count ≤ elems.length ∧ RowHeap (Cmp.le order) (elems.take count)} count := by
    intro order orders count within heap stops
    have greatest := isGreatest_heap heap within stops
    have same : {count | count ≤ elems.length ∧ RowHeap (Cmp.le order) (elems.take count)} =
        {count | count ≤ elems.length ∧ Heap (keyLe order) (fun idx => elems[idx]?) count} := by
      ext count
      exact and_congr_right fun within => rowHeap_take_iff within
    rwa [same]
  simp only [isHeapUntil, ends_bind, ends_assertSpan (Over.asserts holds)]
  refine ends_loop (fun rounds (vars : Nat × C) mid => mid = heap ∧ 0 < vars.1 ∧ rounds = span.len - vars.1 ∧
    forall order, cmp.Orders order -> Heap (keyLe order) (fun idx => elems[idx]?) vars.1) ?_
    ⟨rfl, Nat.succ_pos 0, rfl, fun _ _ => Heap.short (Nat.le_refl 1)⟩ (by omega)
  rintro rounds ⟨child, ctx⟩ _ ⟨rfl, some_, rfl, heaps⟩
  dsimp only at some_ heaps ⊢
  rw [ends_ite]
  constructor
  · intro inside
    have above := parent_lt some_
    rw [ends_bind, ends_heapParent some_, ends_bind]
    apply ends_heapAbove holds (by omega) (by omega)
    intro above ctx answers
    rw [ends_ite]
    constructor
    · intro settled
      rw [ends_pure]
      refine ⟨span.len - (child + 1), by omega, rfl, Nat.succ_pos child, rfl, fun order orders => ?_⟩
      exact (Heap.succ_iff some_).mpr ⟨heaps order orders, (answers order orders).mp settled⟩
    · intro breaks
      rw [ends_pure]
      refine done child ctx fun order orders => longest orders (by omega) (heaps order orders) (Or.inr ⟨some_, ?_⟩)
      exact fun le => breaks ((answers order orders).mpr le)
  · intro all
    rw [ends_pure]
    rw [← length] at all
    refine done _ ctx fun order orders => longest orders (Nat.le_of_eq length.symm) ?_ (Or.inl length.symm)
    exact (heaps order orders).shorter (by omega)

theorem ends_isHeap (holds : Holds heap.blocks span elems) {post : Bool × C -> SpanMem α -> Prop}
    (done : forall answer ctx, (forall order, cmp.Orders order -> (answer = true <-> RowHeap (Cmp.le order) elems)) ->
      post (answer, ctx) heap) :
    Ends (isHeap span cmp ctx) heap post := by
  have length := holds.length
  simp only [isHeap, ends_bind, ends_assertSpan (Over.asserts holds)]
  apply ends_isHeapUntil holds
  intro count ctx longest
  rw [ends_pure]
  refine done _ ctx fun order orders => ?_
  rcases longest order orders with ⟨⟨within, heap⟩, greatest⟩
  rw [decide_eq_true_eq, ← length]
  constructor
  · intro all
    dsimp only at all
    rwa [all, List.take_length] at heap
  · intro whole
    exact Nat.le_antisymm within (greatest ⟨Nat.le_refl _, by rwa [List.take_length]⟩)

/-- How the functions keep a heap by the order in the span: each leaves the elems in another order, and
the two questions change nothing. -/
structure Heaping (heap : SpanMem α) (span : Span) (elems : List α) (cmp : Cmp α C) (order : α -> α -> Int)
    (ctx : C) : Prop where
  make : Ends (makeHeap span cmp ctx) heap fun _ later => exists now,
    later.blocks = place heap.blocks span now ∧ now.Perm elems ∧ RowHeap (Cmp.le order) now
  push : elems ≠ [] -> RowHeap (Cmp.le order) elems.dropLast ->
    Ends (pushHeap span cmp ctx) heap fun _ later => exists now,
      later.blocks = place heap.blocks span now ∧ now.Perm elems ∧ RowHeap (Cmp.le order) now
  pop : elems ≠ [] -> RowHeap (Cmp.le order) elems ->
    Ends (popHeap span cmp ctx) heap fun _ later => exists rest top,
      later.blocks = place heap.blocks span (rest ++ [top]) ∧ (rest ++ [top]).Perm elems ∧
        RowHeap (Cmp.le order) rest ∧ forall elem, elem ∈ elems -> Cmp.le order elem top
  sort : RowHeap (Cmp.le order) elems -> Ends (sortHeap span cmp ctx) heap fun _ later => exists now,
    later.blocks = place heap.blocks span now ∧ now.Perm elems ∧ now.Pairwise (Cmp.le order)
  upTo : Ends (isHeapUntil span cmp ctx) heap fun result later => later = heap ∧
    IsGreatest {count | count ≤ elems.length ∧ RowHeap (Cmp.le order) (elems.take count)} result.1
  whole : Ends (isHeap span cmp ctx) heap fun result later => later = heap ∧
    (result.1 = true <-> RowHeap (Cmp.le order) elems)

theorem Holds.heaps (holds : Holds heap.blocks span elems) (orders : cmp.Orders order) (ctx : C) :
    Heaping heap span elems cmp order ctx where
  make := ends_makeHeap holds fun now _ _ put perm built => ⟨now, put, perm, built order orders⟩
  push some_ front := ends_pushHeap holds some_ fun now _ _ put perm grown =>
    ⟨now, put, perm, grown order orders front⟩
  pop some_ whole := ends_popHeap holds some_ fun rest top _ _ _ put perm takes =>
    ⟨rest, top, put, perm, takes order orders whole⟩
  sort whole := ends_sortHeap holds fun now _ _ put perm drained => ⟨now, put, perm, drained order orders whole⟩
  upTo := ends_isHeapUntil holds fun _ _ longest => ⟨rfl, longest order orders⟩
  whole := ends_isHeap holds fun _ _ answers => ⟨rfl, answers order orders⟩

theorem Holds.heaps_row : Ends (makeHeap (rowSpan 0 4) byValue ()) (rowsMem [[7, 9, 8, 9]]) fun _ later =>
    exists now, later.blocks = place (rowsMem [[7, 9, 8, 9]]).blocks (rowSpan 0 4) now ∧ now.Perm [7, 9, 8, 9] ∧
      RowHeap (Cmp.le fun (lhs rhs : Nat) => (lhs : Int) - rhs) now := by
  have small : [7, 9, 8, 9].length < sizeRange := by decide
  have holds : Holds (rowsMem [[7, 9, 8, 9]]).blocks (rowSpan 0 4) [7, 9, 8, 9] := rowsMem_holds rfl small
  exact (Holds.heaps holds byValue_orders ()).make

end Span
end TerseDsa
