import TerseDsa.Algo.Heap

namespace TerseDsa

open Foundation

/-!
# `algo/sort`

Sorting a span in place, and putting some of its elems where they belong.
Indices are natural numbers; the code takes one off only where there is one.
-/

namespace Span

variable {α C : Type}

/-- `INSERTION_THRESHOLD`. -/
def insertionThreshold : Nat := 16

/-- `INSERTION_HELD_MAX`. -/
def insertionHeldMax : Nat := 256

/-- `closed_range`. -/
def closedRange {S : Type} (s : Span) (left right : Nat) : Run S Span := sub s left (right - left + 1)

/-- `memmove` of `count` elems from `from_` on, to where the span has its elem at `dest`. -/
def moveElems (α : Type) (s : Span) (dest from_ count : Nat) : Run (SpanMem α) Unit := do
  assertSpan s
  Run.require (dest < s.len)
  Run.require (from_ < s.len)
  let cells : List (Option α) ← Slice.readRun s.toSlice from_ count
  Slice.writeRun s.toSlice dest cells

/-- `memcpy` to the elem at `idx`. -/
def putElem (s : Span) (idx : Nat) (val : α) : Run (SpanMem α) Unit := do
  assertSpan s
  Run.require (idx < s.len)
  Slice.write s.toSlice idx (some val)

/-- `insertion_slot`. -/
def insertionSlot (s : Span) (idx : Nat) (cmp : Cmp α C) (ctx : C) : Run (SpanMem α) (Nat × C) := do
  let val ← get s idx
  Run.loop (fun (vars : Nat × C) => do
    let (slot, ctx) := vars
    if slot > 0 then
      let prev ← get s (slot - 1)
      let (valFirst, ctx) := rightGoesFirst cmp prev val ctx
      if valFirst then
        return .again (slot - 1, ctx)
      else
        return .leave (slot, ctx)
    else
      return .leave (slot, ctx))
    (idx + 1) (idx, ctx)

/-- The swaps of `tda_span_insertion_sort`, down to the slot. -/
def swapDown (α : Type) (s : Span) (i j : Nat) : Run (SpanMem α) Unit :=
  Run.loop (fun k => do
    if k > j then
      swapElems α s (k - 1) k
      return .again (k - 1)
    else
      return .leave ())
    (i + 1) i

/-- The move of `tda_span_insertion_sort` with the elem held. -/
def slideHeld (α : Type) (s : Span) (i j : Nat) : Run (SpanMem α) Unit := do
  if j = i then
    return ()
  let held ← get (α := α) s i
  moveElems α s (j + 1) j (i - j)
  putElem s j held

/-- `tda_span_insertion_sort`. -/
def insertionSort (s : Span) (cmp : Cmp α C) (ctx : C) : Run (SpanMem α) C := do
  assertSpan s
  Run.loop (fun (vars : Nat × C) => do
    let (i, ctx) := vars
    if i < s.len then
      let (j, ctx) ← insertionSlot s i cmp ctx
      if s.elem.size > insertionHeldMax then
        swapDown α s i j
      else
        slideHeld α s i j
      return .again (i + 1, ctx)
    else
      return .leave ctx)
    (s.len + 1) (1, ctx)

/-- `median3`. -/
def median3 (s : Span) (a b c : Nat) (cmp : Cmp α C) (ctx : C) : Run (SpanMem α) (Nat × C) := do
  let aVal ← get s a
  let bVal ← get s b
  let cVal ← get s c
  let (ab, ctx) := cmp aVal bVal ctx
  let (ac, ctx) := cmp aVal cVal ctx
  let (bc, ctx) := cmp bVal cVal ctx
  if (ab ≤ 0 ∧ ac ≥ 0) ∨ (ab ≥ 0 ∧ ac ≤ 0) then
    return (a, ctx)
  if (ab ≤ 0 ∧ bc ≤ 0) ∨ (ab ≥ 0 ∧ bc ≥ 0) then
    return (b, ctx)
  return (c, ctx)

/-- `ninther`. -/
def ninther (s : Span) (left right : Nat) (cmp : Cmp α C) (ctx : C) : Run (SpanMem α) (Nat × C) := do
  let len := right - left + 1
  let mid := left + len / 2
  let step := len / 8
  let (lo, ctx) ← median3 s left (left + step) (left + 2 * step) cmp ctx
  let (md, ctx) ← median3 s (mid - step) mid (mid + step) cmp ctx
  let (hi, ctx) ← median3 s (right - 2 * step) (right - step) right cmp ctx
  median3 s lo md hi cmp ctx

/-- `Split`. -/
structure Split where
  lt : Nat
  gt : Nat

/-- The variables of `partition3`. -/
structure Partitioning (C : Type) where
  lo : Nat
  i : Nat
  hi : Nat
  ctx : C

/-- `partition3`. -/
def partition3 (s : Span) (left right pivotIdx : Nat) (cmp : Cmp α C) (ctx : C) : Run (SpanMem α) (Split × C) := do
  Run.require (left ≤ pivotIdx ∧ pivotIdx ≤ right)
  swapElems α s left pivotIdx
  Run.loop (fun (vars : Partitioning C) => do
    if vars.i ≤ vars.hi then
      let elem ← get s vars.i
      let pivot ← get s vars.lo
      let (order, ctx) := cmp elem pivot vars.ctx
      if order < 0 then
        swapElems α s vars.i vars.lo
        return .again ⟨vars.lo + 1, vars.i + 1, vars.hi, ctx⟩
      else if order > 0 then
        swapElems α s vars.i vars.hi
        return .again ⟨vars.lo, vars.i, vars.hi - 1, ctx⟩
      else
        return .again ⟨vars.lo, vars.i + 1, vars.hi, ctx⟩
    else
      return .leave (⟨vars.lo, vars.hi⟩, vars.ctx))
    (right - left + 1) ⟨left, left + 1, right, ctx⟩

/-- `tda_bit_log2_floor`. -/
def bitLog2Floor {S : Type} (n : Nat) : Run S Nat := do
  Run.require (n > 0)
  return Nat.log2 n

/-- `depth_limit`. -/
def depthLimit {S : Type} (len : Nat) : Run S Nat := do
  Run.require (len > 1)
  let levels ← bitLog2Floor len
  return 2 * levels

/-- `quicksort`; a round of its loop is a call on what the loop goes on with, and every call is on
fewer elems. -/
def quicksort : (bound : Nat) -> (s : Span) -> (left right depth : Nat) -> (cmp : Cmp α C) -> C -> Run (SpanMem α) C
  | 0, _, _, _, _, _, _ => failure
  | bound + 1, s, left, right, depth, cmp, ctx => do
      if left < right then
        if right - left + 1 ≤ insertionThreshold then
          let range ← closedRange s left right
          insertionSort range cmp ctx
        else if depth = 0 then
          let range ← closedRange s left right
          let ctx ← makeHeap range cmp ctx
          sortHeap range cmp ctx
        else
          let depth := depth - 1
          let (pivotIdx, ctx) ← ninther s left right cmp ctx
          let (split, ctx) ← partition3 s left right pivotIdx cmp ctx
          let lt := split.lt
          let gt := split.gt
          if lt - left < right - gt then
            let ctx ← (if lt > left then quicksort bound s left (lt - 1) depth cmp ctx else pure ctx)
            quicksort bound s (gt + 1) right depth cmp ctx
          else
            let ctx ← (if gt < right then quicksort bound s (gt + 1) right depth cmp ctx else pure ctx)
            if lt = left then
              return ctx
            quicksort bound s left (lt - 1) depth cmp ctx
      else
        return ctx

/-- `tda_span_sort`. -/
def sort (s : Span) (cmp : Cmp α C) (ctx : C) : Run (SpanMem α) C := do
  assertSpan s
  if s.len < 2 then
    return ctx
  let depth ← depthLimit s.len
  quicksort s.len s 0 (s.len - 1) depth cmp ctx

/-- The variables of `tda_span_nth_elem`. -/
structure Selecting (C : Type) where
  left : Nat
  right : Nat
  depth : Nat
  ctx : C

/-- `tda_span_nth_elem`. -/
def nthElem (s : Span) (nth : Nat) (cmp : Cmp α C) (ctx : C) : Run (SpanMem α) C := do
  assertSpan s
  Run.require (nth < s.len)
  if s.len < 2 then
    return ctx
  let depth ← depthLimit s.len
  Run.loop (fun (vars : Selecting C) => do
    if vars.left < vars.right then
      if vars.depth = 0 then
        let range ← closedRange s vars.left vars.right
        let ctx ← sort range cmp vars.ctx
        return .leave ctx
      let depth := vars.depth - 1
      let (pivotIdx, ctx) ← ninther s vars.left vars.right cmp vars.ctx
      let (split, ctx) ← partition3 s vars.left vars.right pivotIdx cmp ctx
      let lt := split.lt
      let gt := split.gt
      if nth < lt then
        return .again ⟨vars.left, lt - 1, depth, ctx⟩
      else if nth > gt then
        return .again ⟨gt + 1, vars.right, depth, ctx⟩
      else
        return .leave ctx
    else
      return .leave vars.ctx)
    s.len ⟨0, s.len - 1, depth, ctx⟩

/-- `tda_span_partial_sort`. -/
def partialSort (s : Span) (count : Nat) (cmp : Cmp α C) (ctx : C) : Run (SpanMem α) C := do
  assertSpan s
  Run.require (count ≤ s.len)
  if count = 0 ∨ s.len < 2 then
    return ctx
  if count ≥ s.len then
    return ← sort s cmp ctx
  let ctx ← nthElem s count cmp ctx
  let front ← sub s 0 count
  sort front cmp ctx

end Span
end TerseDsa
