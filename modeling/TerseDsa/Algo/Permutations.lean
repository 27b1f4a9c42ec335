import TerseDsa.Algo.Permute
import TerseDsa.Core.Cmp
import TerseDsa.Foundation.Succession

namespace TerseDsa

open Foundation

/-!
# `algo/permute`: stepping through the permutations

The next and the previous permutation of a span, in the order of `tda_span_cmp`.
-/

namespace Span

variable {α C : Type}

/-- `goes_before`. -/
def goesBefore (s : Span) (cmp : Cmp α C) (ctx : C) (asc : Bool) (i j : Nat) : Run (SpanMem α) (Bool × C) := do
  let lhs ← get s i
  let rhs ← get s j
  let (order, ctx) := if asc then cmp lhs rhs ctx else cmp rhs lhs ctx
  return (decide (order < 0), ctx)

/-- The first loop of `permute_step`. -/
def findPivot (s : Span) (cmp : Cmp α C) (ctx : C) (asc : Bool) : Run (SpanMem α) (Nat × C) :=
  Run.loop (fun (vars : Nat × C) => do
    let (pivot, ctx) := vars
    if pivot > 0 then
      let (before, ctx) ← goesBefore s cmp ctx asc (pivot - 1) pivot
      if before then
        return .leave (pivot, ctx)
      else
        return .again (pivot - 1, ctx)
    else
      return .leave (pivot, ctx))
    s.len (s.len - 1, ctx)

/-- The second loop. -/
def findMate (s : Span) (cmp : Cmp α C) (ctx : C) (asc : Bool) (pivot : Nat) : Run (SpanMem α) (Nat × C) :=
  Run.loop (fun (vars : Nat × C) => do
    let (mate, ctx) := vars
    if mate > pivot + 1 then
      let (before, ctx) ← goesBefore s cmp ctx asc pivot mate
      if before then
        return .leave (mate, ctx)
      else
        return .again (mate - 1, ctx)
    else
      return .leave (mate, ctx))
    s.len (s.len - 1, ctx)

/-- `permute_step`. -/
def permuteStep (s : Span) (cmp : Cmp α C) (ctx : C) (asc : Bool) : Run (SpanMem α) (Bool × C) := do
  if s.len < 2 then
    return (false, ctx)
  let (pivot, ctx) ← findPivot s cmp ctx asc
  if pivot = 0 then
    reverse α s
    return (false, ctx)
  let pivot := pivot - 1
  let (mate, ctx) ← findMate s cmp ctx asc pivot
  swapElems α s pivot mate
  reverse α (← sub s (pivot + 1) (s.len - pivot - 1))
  return (true, ctx)

/-- `tda_span_next_permutation`. -/
def nextPermutation (s : Span) (cmp : Cmp α C) (ctx : C) : Run (SpanMem α) (Bool × C) := do
  assertSpan s
  permuteStep s cmp ctx true

/-- `tda_span_prev_permutation`. -/
def prevPermutation (s : Span) (cmp : Cmp α C) (ctx : C) : Run (SpanMem α) (Bool × C) := do
  assertSpan s
  permuteStep s cmp ctx false

end Span
end TerseDsa
