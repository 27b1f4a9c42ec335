import TerseDsa.Algo.Permute
import TerseDsa.Algo.Search
import TerseDsa.Foundation.Merging

namespace TerseDsa

open Foundation Run

/-!
# `algo/merge`

Merging two sorted runs, into a span of its own or where they are.
-/

namespace Span

variable {α C : Type}

/-- The variables of `tda_span_merge`. -/
structure Merging (C : Type) where
  i : Nat
  j : Nat
  write : Nat
  ctx : C

/-- `tda_span_merge`. -/
def merge (dst a b : Span) (cmp : Cmp α C) (ctx : C) : Run (SpanMem α) C := do
  assertSpan dst
  assertSpan a
  assertSpan b
  require (dst.elem = a.elem)
  require (dst.elem = b.elem)
  require (dst.len = a.len + b.len)
  require (¬ Overlap dst a)
  require (¬ Overlap dst b)
  let vars ← loop (fun (vars : Merging C) => do
    if vars.i < a.len ∧ vars.j < b.len then
      let lhs ← get a vars.i
      let rhs ← get b vars.j
      let (rightFirst, ctx) := rightGoesFirst cmp lhs rhs vars.ctx
      if rightFirst then
        let write ← emit α dst vars.write b vars.j
        return .again ⟨vars.i, vars.j + 1, write, ctx⟩
      else
        let write ← emit α dst vars.write a vars.i
        return .again ⟨vars.i + 1, vars.j, write, ctx⟩
    else
      return .leave vars)
    (dst.len + 1) ⟨0, 0, 0, ctx⟩
  let write ← emitRest α dst vars.write a vars.i
  let write ← emitRest α dst write b vars.j
  require (write = dst.len)
  return vars.ctx

/-- `merge_forward`: `i` and `j` are `parked_idx` and `right_idx`. -/
def mergeForward (s : Span) (mid : Nat) (cmp : Cmp α C) (ctx : C) (parked : Span) : Run (SpanMem α) C := do
  let vars ← loop (fun (vars : Merging C) => do
    if vars.i < parked.len ∧ vars.j < s.len then
      let lhs ← get parked vars.i
      let rhs ← get s vars.j
      let (rightFirst, ctx) := rightGoesFirst cmp lhs rhs vars.ctx
      if rightFirst then
        let write ← emit α s vars.write s vars.j
        return .again ⟨vars.i, vars.j + 1, write, ctx⟩
      else
        let write ← emit α s vars.write parked vars.i
        return .again ⟨vars.i + 1, vars.j, write, ctx⟩
    else
      return .leave vars)
    (s.len + 1) ⟨0, mid, 0, ctx⟩
  let last ← emitRest α s vars.write parked vars.i
  require (vars.j < s.len ∨ last = s.len)
  return vars.ctx

/-- `merge_backward`: `i` and `j` are `left_idx` and `parked_idx`. -/
def mergeBackward (s : Span) (mid : Nat) (cmp : Cmp α C) (ctx : C) (parked : Span) : Run (SpanMem α) C := do
  let vars ← loop (fun (vars : Merging C) => do
    if vars.i > 0 ∧ vars.j > 0 then
      let lhs ← get s (vars.i - 1)
      let rhs ← get parked (vars.j - 1)
      let (takeLeft, ctx) := rightGoesFirst cmp lhs rhs vars.ctx
      let write := vars.write - 1
      if takeLeft then
        let _ ← emit α s write s (vars.i - 1)
        return .again ⟨vars.i - 1, vars.j, write, ctx⟩
      else
        let _ ← emit α s write parked (vars.j - 1)
        return .again ⟨vars.i, vars.j - 1, write, ctx⟩
    else
      return .leave vars)
    (s.len + 1) ⟨mid, parked.len, s.len, ctx⟩
  require (vars.j = 0 ∨ vars.write = vars.j)
  copyElems α s 0 parked 0 vars.j
  return vars.ctx

/-- `merge_buffered`. -/
def mergeBuffered (s : Span) (mid : Nat) (cmp : Cmp α C) (ctx : C) (buf : Addr) : Run (SpanMem α) C := do
  if mid ≤ s.len - mid then
    let parked : Span := ⟨⟨some buf, 0, mid⟩, s.elem⟩
    copyElems α parked 0 s 0 mid
    mergeForward s mid cmp ctx parked
  else
    let parked : Span := ⟨⟨some buf, 0, s.len - mid⟩, s.elem⟩
    copyElems α parked 0 s mid (s.len - mid)
    mergeBackward s mid cmp ctx parked

/-- `merge_in_place`; every call is on fewer elems. -/
def mergeInPlace : (bound : Nat) -> (s : Span) -> (mid : Nat) -> (cmp : Cmp α C) -> C -> Run (SpanMem α) C
  | 0, _, _, _, _ => failure
  | bound + 1, s, mid, cmp, ctx => do
      let leftLen := mid
      let rightLen := s.len - mid
      if leftLen = 0 ∨ rightLen = 0 then
        return ctx
      if s.len = 2 then
        let lhs ← get s 0
        let rhs ← get s 1
        let (rightFirst, ctx) := rightGoesFirst cmp lhs rhs ctx
        if rightFirst then
          swapElems α s 0 1
        return ctx
      let (leftCut, rightCut, ctx) ← if leftLen > rightLen then do
          let leftCut := leftLen / 2
          let right ← sub s mid rightLen
          let (place, ctx) ← lowerBound right (← get s leftCut) cmp ctx
          pure (leftCut, mid + place, ctx)
        else do
          let rightCut := mid + rightLen / 2
          let left ← sub s 0 mid
          let (place, ctx) ← upperBound left (← get s rightCut) cmp ctx
          pure (place, rightCut, ctx)
      rotate α (← sub s leftCut (rightCut - leftCut)) (mid - leftCut)
      let newMid := leftCut + (rightCut - mid)
      let ctx ← mergeInPlace bound (← sub s 0 newMid) leftCut cmp ctx
      mergeInPlace bound (← sub s newMid (s.len - newMid)) (rightCut - newMid) cmp ctx

/-- `tda_span_inplace_merge`. -/
def inplaceMerge (s : Span) (mid : Nat) (cmp : Cmp α C) (ctx : C) (al : Al) : Run (SpanMem α) C := do
  assertSpan s
  require (mid ≤ s.len)
  let leftLen := mid
  let rightLen := s.len - mid
  if leftLen = 0 ∨ rightLen = 0 then
    return ctx
  let bufLen := if leftLen < rightLen then leftLen else rightLen
  let bufLayout := elemsLayout s.elem bufLen
  let buf ← if al.isSome then
      alloc al bufLayout (List.replicate (bufLayout.size / s.elem.size) none)
    else
      pure none
  match buf with
  | none => mergeInPlace (s.len + 1) s mid cmp ctx
  | some buf => do
      let ctx ← mergeBuffered s mid cmp ctx buf
      dealloc al (some buf) bufLayout
      return ctx

end Span

/-!
## Merging spans

The two merges with a place to write to compute `mergeBy` and `mergeBackBy` of
the runs, whatever the comparator answers.
-/

namespace Span

variable {α C : Type} {heap : SpanMem α} {dst a b s parked : Span} {cells : List (Option α)}
  {left right elems : List α} {cmp : Cmp α C} {ctx : C}

/-- What is still to be merged, and what is written already. -/
def Pending (cmp : Cmp α C) (left right : List α) (ctx : C) (final : List α × C) (out : List α) : Prop :=
  out ++ (mergeBy (rightGoesFirst cmp) left right ctx).1 = final.1 ∧
    (mergeBy (rightGoesFirst cmp) left right ctx).2 = final.2

namespace Pending

variable {final : List α × C} {out : List α} {l r : α}

theorem length (pending : Pending cmp left right ctx final out) :
    final.1.length = out.length + left.length + right.length := by
  rw [← pending.1, List.length_append, mergeBy_perm.length_eq, List.length_append, Nat.add_assoc]

/-- The right elem goes first. -/
theorem takeRight (pending : Pending cmp (l :: left) (r :: right) ctx final out)
    (rightFirst : (rightGoesFirst cmp l r ctx).1 = true) :
    Pending cmp (l :: left) right (rightGoesFirst cmp l r ctx).2 final (out ++ [r]) := by
  unfold Pending at pending ⊢
  rw [mergeBy, if_pos rightFirst] at pending
  rwa [List.append_assoc]

/-- A tie takes from the left. -/
theorem takeLeft (pending : Pending cmp (l :: left) (r :: right) ctx final out)
    (leftFirst : ¬ (rightGoesFirst cmp l r ctx).1 = true) :
    Pending cmp left (r :: right) (rightGoesFirst cmp l r ctx).2 final (out ++ [l]) := by
  unfold Pending at pending ⊢
  rw [mergeBy, if_neg leftFirst] at pending
  rwa [List.append_assoc]

/-- One run is used up; the rest of the other follows. -/
theorem rest (pending : Pending cmp left right ctx final out) (empty : left = [] ∨ right = []) :
    out ++ left ++ right = final.1 ∧ ctx = final.2 := by
  unfold Pending at pending
  rcases empty with rfl | rfl
  · rwa [mergeBy_nil_left, ← List.append_nil out] at pending
  · rwa [mergeBy_nil_right, ← List.append_nil (out ++ left)] at pending

end Pending

theorem ends_merge (laid : Over heap.blocks dst cells) (holdsLeft : Holds heap.blocks a left)
    (holdsRight : Holds heap.blocks b right) (sameLeft : dst.elem = a.elem) (sameRight : dst.elem = b.elem)
    (room : dst.len = a.len + b.len) (apartLeft : ¬ Overlap dst a) (apartRight : ¬ Overlap dst b)
    {post : C -> SpanMem α -> Prop}
    (done : forall later : SpanMem α,
      later.blocks = place heap.blocks dst (mergeBy (rightGoesFirst cmp) left right ctx).1 ->
      post (mergeBy (rightGoesFirst cmp) left right ctx).2 later) :
    Ends (merge dst a b cmp ctx) heap post := by
  have total : cells.length = left.length + right.length := by
    rw [laid.length, room, holdsLeft.length, holdsRight.length]
  have besideLeft := apart_of_not_overlap apartLeft
  have besideRight := apart_of_not_overlap apartRight
  have apartToo : ¬ Overlap dst a ∧ ¬ Overlap dst b := ⟨apartLeft, apartRight⟩
  simp only [merge, ends_bind, ends_assertSpan laid.asserts, ends_assertSpan (Over.asserts holdsLeft),
    ends_assertSpan (Over.asserts holdsRight), ends_require]
  refine ⟨sameLeft, sameRight, room, apartToo.1, apartToo.2, ?_⟩
  refine ends_loop (fun rounds (vars : Merging C) mid => exists out,
    Pending cmp (left.drop vars.i) (right.drop vars.j) vars.ctx (mergeBy (rightGoesFirst cmp) left right ctx) out ∧
      out.length = vars.i + vars.j ∧ vars.write = out.length ∧ vars.i ≤ left.length ∧ vars.j ≤ right.length ∧
      mid.blocks = Slice.fill heap.blocks dst.toSlice (written out cells) ∧
      rounds = left.length + right.length - out.length) ?_ (n := left.length + right.length)
    ⟨[], ⟨rfl, rfl⟩, rfl, rfl, Nat.zero_le _, Nat.zero_le _, laid.slots.fill_same.symm, rfl⟩
    (by rw [room, holdsLeft.length, holdsRight.length]; exact Nat.lt_succ_self _)
  · rintro rounds ⟨i, j, write, ctx'⟩ mid ⟨out, pending, size, at_, inLeft, inRight, same, rfl⟩
    dsimp only at pending size at_ inLeft inRight ⊢
    subst at_
    have fits : out.length ≤ cells.length := by omega
    have now : Over mid.blocks dst (written out cells) := laid.asWritten same fits
    have nowLeft : Holds mid.blocks a left := laid.besideWritten holdsLeft same fits besideLeft
    have nowRight : Holds mid.blocks b right := laid.besideWritten holdsRight same fits besideRight
    rw [ends_ite]
    constructor
    · rintro ⟨someLeft, someRight⟩
      rw [← holdsLeft.length] at someLeft
      rw [← holdsRight.length] at someRight
      rw [List.drop_eq_getElem_cons someLeft, List.drop_eq_getElem_cons someRight] at pending
      simp only [ends_bind, ends_get nowLeft someLeft, ends_get nowRight someRight]
      rw [ends_ite]
      constructor
      · intro rightFirst
        have taken := pending.takeRight rightFirst
        rw [← List.drop_eq_getElem_cons someLeft] at taken
        rw [ends_bind]
        apply ends_emitWritten now nowRight (by omega) someRight besideRight
        intro later put
        rw [same, laid.slots.fill_fill (length_written fits) (length_written (by
          rw [List.length_append, List.length_singleton]; omega))] at put
        rw [ends_pure]
        refine ⟨_, ?_, out ++ [right[j]], taken, ?_, ?_, inLeft, someRight, put, rfl⟩
        all_goals
          simp only [List.length_append, List.length_singleton] <;> omega
      · intro leftFirst
        have taken := pending.takeLeft leftFirst
        rw [← List.drop_eq_getElem_cons someRight] at taken
        rw [ends_bind]
        apply ends_emitWritten now nowLeft (by omega) someLeft besideLeft
        intro later put
        rw [same, laid.slots.fill_fill (length_written fits) (length_written (by
          rw [List.length_append, List.length_singleton]; omega))] at put
        rw [ends_pure]
        refine ⟨_, ?_, out ++ [left[i]], taken, ?_, ?_, someLeft, inRight, put, rfl⟩
        all_goals
          simp only [List.length_append, List.length_singleton] <;> omega
    · intro used
      have empty : left.drop i = [] ∨ right.drop j = [] := by
        rw [List.drop_eq_nil_iff, List.drop_eq_nil_iff, holdsLeft.length, holdsRight.length]
        omega
      rcases pending.rest empty with ⟨whole, ctxSame⟩
      have sizes := pending.length
      rw [mergeBy_perm.length_eq, List.length_append] at sizes
      rw [ends_pure]
      apply ends_restWritten now nowLeft inLeft (by omega) besideLeft
      intro next put
      have fits' : (out ++ left.drop i).length ≤ cells.length := by
        rw [List.length_append]
        omega
      rw [same, laid.slots.fill_fill (length_written fits) (length_written fits')] at put
      have nextOver : Over next.blocks dst (written (out ++ left.drop i) cells) := laid.asWritten put fits'
      have nextRight : Holds next.blocks b right := laid.besideWritten holdsRight put fits' besideRight
      apply ends_restWritten nextOver nextRight inRight (by rw [List.length_append]; omega) besideRight
      intro later final
      rw [put, whole] at final
      have all : (mergeBy (rightGoesFirst cmp) left right ctx).1.length = cells.length := by
        rw [mergeBy_perm.length_eq, List.length_append, total]
      have none_ : cells.drop (mergeBy (rightGoesFirst cmp) left right ctx).1.length = [] :=
        List.drop_of_length_le (Nat.le_of_eq all.symm)
      rw [laid.slots.fill_fill (length_written fits') (length_written (Nat.le_of_eq all)), written, none_,
        List.append_nil] at final
      rw [whole, all, laid.length, ends_pure, ctxSame]
      exact ⟨rfl, done later final⟩

/-! ## With the shorter run parked -/

/-- A forward merge under way: what is written is in front, then as many slots as elems are still
parked, then the `right.drop k` that is unread of the right run. -/
structure Forward (before : Blocks AlTag (List (Option α))) (s : Span) (cmp : Cmp α C) (left right : List α) (mid : Nat)
    (final : List α × C) (vars : Merging C) (k : Nat) (between out : List α)
    (now : Blocks AlTag (List (Option α))) : Prop where
  pending : Pending cmp (left.drop vars.i) (right.drop k) vars.ctx final out
  reads : vars.j = mid + k
  inRight : k ≤ right.length
  gap : vars.i + between.length = mid
  writes : vars.write = out.length
  size : out.length = vars.i + k
  blocks : now = place before s (out ++ between ++ right.drop k)

namespace Forward

variable {old between out : List α} {final : List α × C} {vars : Merging C} {now later : SpanMem α} {slot : α}
  {i k mid : Nat}

theorem length (forward : Forward heap.blocks s cmp left right mid final vars k between out now.blocks)
    (atMid : old.length = mid) : (out ++ between ++ right.drop k).length = (old ++ right).length := by
  have size := forward.size
  have gap := forward.gap
  have inRight := forward.inRight
  simp only [List.length_append, List.length_drop]
  omega

theorem holds (forward : Forward heap.blocks s cmp left right mid final vars k between out now.blocks)
    (before : Holds heap.blocks s (old ++ right)) (atMid : old.length = mid) :
    Holds now.blocks s (out ++ between ++ right.drop k) := by
  rw [forward.blocks]
  exact before.placed (forward.length atMid)

theorem beside (forward : Forward heap.blocks s cmp left right mid final vars k between out now.blocks)
    (before : Holds heap.blocks s (old ++ right)) (atMid : old.length = mid)
    (holdsParked : Holds heap.blocks parked left) (apart : Slice.Apart s.toSlice parked.toSlice) :
    Holds now.blocks parked left := by
  rw [forward.blocks]
  exact before.beside holdsParked (forward.length atMid) apart

/-- The first slot of the gap gets the next elem of the right run, whose own slot joins the gap behind. -/
theorem takeRight (forward : Forward heap.blocks s cmp left right mid final ⟨i, mid + k, out.length, ctx⟩ k
      (slot :: between) out now.blocks) (before : Holds heap.blocks s (old ++ right)) (atMid : old.length = mid)
    (unreadLeft : i < left.length) (unreadRight : k < right.length)
    (rightFirst : (rightGoesFirst cmp left[i] right[k] ctx).1 = true)
    (put : later.blocks = place now.blocks s (out ++ right[k] :: (between ++ right.drop k))) :
    Forward heap.blocks s cmp left right mid final
      ⟨i, mid + k + 1, out.length + 1, (rightGoesFirst cmp left[i] right[k] ctx).2⟩ (k + 1) (between ++ [right[k]])
      (out ++ [right[k]]) later.blocks := by
  have sizes := forward.length atMid
  rcases forward with ⟨pending, _, inRight, gap, _, size, same⟩
  dsimp only at pending gap size same sizes
  rw [List.length_cons] at gap
  rw [List.drop_eq_getElem_cons unreadLeft, List.drop_eq_getElem_cons unreadRight] at pending
  have taken := pending.takeRight rightFirst
  rw [← List.drop_eq_getElem_cons unreadLeft] at taken
  have sizes' : (out ++ right[k] :: (between ++ right.drop k)).length = (old ++ right).length := by
    rw [← sizes]
    simp only [List.length_append, List.length_cons]
    omega
  have moved : out ++ right[k] :: (between ++ right.drop k) =
      (out ++ [right[k]]) ++ (between ++ [right[k]]) ++ right.drop (k + 1) := by
    rw [List.drop_eq_getElem_cons unreadRight]
    simp only [List.append_assoc, List.cons_append, List.nil_append]
  rw [same, before.place_place sizes sizes', moved] at put
  refine ⟨taken, rfl, unreadRight, ?_, ?_, ?_, put⟩
  all_goals
    simp only [List.length_append, List.length_singleton] <;> omega

/-- The first slot of the gap gets the next elem that is parked. -/
theorem takeLeft (forward : Forward heap.blocks s cmp left right mid final ⟨i, mid + k, out.length, ctx⟩ k
      (slot :: between) out now.blocks) (before : Holds heap.blocks s (old ++ right)) (atMid : old.length = mid)
    (unreadLeft : i < left.length) (unreadRight : k < right.length)
    (leftFirst : ¬ (rightGoesFirst cmp left[i] right[k] ctx).1 = true)
    (put : later.blocks = place now.blocks s (out ++ left[i] :: (between ++ right.drop k))) :
    Forward heap.blocks s cmp left right mid final
      ⟨i + 1, mid + k, out.length + 1, (rightGoesFirst cmp left[i] right[k] ctx).2⟩ k between (out ++ [left[i]])
      later.blocks := by
  have sizes := forward.length atMid
  rcases forward with ⟨pending, _, inRight, gap, _, size, same⟩
  dsimp only at pending gap size same sizes
  rw [List.length_cons] at gap
  rw [List.drop_eq_getElem_cons unreadLeft, List.drop_eq_getElem_cons unreadRight] at pending
  have taken := pending.takeLeft leftFirst
  rw [← List.drop_eq_getElem_cons unreadRight] at taken
  have sizes' : (out ++ left[i] :: (between ++ right.drop k)).length = (old ++ right).length := by
    rw [← sizes]
    simp only [List.length_append, List.length_cons]
    omega
  have moved : out ++ left[i] :: (between ++ right.drop k) = (out ++ [left[i]]) ++ between ++ right.drop k := by
    simp only [List.append_assoc, List.cons_append, List.nil_append]
  rw [same, before.place_place sizes sizes', moved] at put
  refine ⟨taken, rfl, inRight, ?_, ?_, ?_, put⟩
  all_goals
    simp only [List.length_append, List.length_singleton] <;> omega

/-- Once a run is used up, the elems that are still parked fill the gap. -/
theorem ends_rest (forward : Forward heap.blocks s cmp left right mid final vars k between out now.blocks)
    (before : Holds heap.blocks s (old ++ right)) (atMid : old.length = mid) (length : left.length = mid)
    (holdsParked : Holds heap.blocks parked left) (apart : Slice.Apart s.toSlice parked.toSlice)
    (used : vars.i = left.length ∨ k = right.length) {post : C -> SpanMem α -> Prop}
    (done : forall later : SpanMem α, later.blocks = place heap.blocks s final.1 -> post final.2 later) :
    Ends (do
      let last ← emitRest α s vars.write parked vars.i
      require (vars.j < s.len ∨ last = s.len)
      return vars.ctx) now post := by
  have sizes := forward.length atMid
  have nowHolds := forward.holds before atMid
  have nowParked := forward.beside before atMid holdsParked apart
  have total := before.length
  have parkedLen := holdsParked.length
  rw [List.length_append, atMid] at total
  rcases forward with ⟨pending, reads, inRight, gap, writes, size, same⟩
  have empty : left.drop vars.i = [] ∨ right.drop k = [] := by
    rw [List.drop_eq_nil_iff, List.drop_eq_nil_iff]
    omega
  rcases pending.rest empty with ⟨whole, ctxSame⟩
  have laid : Over now.blocks s (out.map some ++ between.map some ++ (right.drop k).map some) := by
    rw [← List.map_append, ← List.map_append]
    exact nowHolds
  have split : Holds now.blocks parked (left.take vars.i ++ left.drop vars.i) := by
    rw [List.take_append_drop]
    exact nowParked
  have read : (left.take vars.i).length = vars.i := by
    rw [List.length_take]
    omega
  have unread : (left.drop vars.i).length = between.length := by
    rw [List.length_drop]
    omega
  have roomThere : out.length + (left.drop vars.i).length ≤ s.len := by omega
  have insideHere : vars.i + (left.drop vars.i).length ≤ parked.len := by omega
  rw [ends_bind, writes]
  apply ends_emitRest laid split (List.length_map _).symm read.symm
    (by rw [List.length_map, unread]) (run_apart apart roomThere insideHere)
  intro later put
  rw [← List.map_append, ← List.map_append, whole] at put
  have finalSize : final.1.length = (old ++ right).length := by
    rw [← sizes, ← whole]
    simp only [List.length_append, unread]
  have ended : vars.j < s.len ∨ out.length + (left.drop vars.i).length = s.len := by omega
  rw [ends_bind, ends_require, ends_pure, ctxSame]
  refine ⟨ended, done later ?_⟩
  rw [← before.place_place sizes finalSize, ← same]
  exact put

end Forward

theorem ends_mergeForward {old : List α} {mid : Nat} (holds : Holds heap.blocks s (old ++ right))
    (holdsParked : Holds heap.blocks parked left) (atMid : old.length = mid) (length : left.length = mid)
    (apart : Slice.Apart s.toSlice parked.toSlice) {post : C -> SpanMem α -> Prop}
    (done : forall later : SpanMem α,
      later.blocks = place heap.blocks s (mergeBy (rightGoesFirst cmp) left right ctx).1 ->
      post (mergeBy (rightGoesFirst cmp) left right ctx).2 later) :
    Ends (mergeForward s mid cmp ctx parked) heap post := by
  have total := holds.length
  rw [List.length_append, atMid] at total
  have parkedLen := holdsParked.length
  rw [mergeForward, ends_bind]
  refine ends_loop (fun rounds (vars : Merging C) now => exists k between out,
    Forward heap.blocks s cmp left right mid (mergeBy (rightGoesFirst cmp) left right ctx) vars k between out
      now.blocks ∧ rounds = s.len - out.length) ?_ (n := s.len) ⟨0, old, [], ?_, rfl⟩ (Nat.lt_succ_self _)
  · rintro rounds ⟨i, j, write, ctx'⟩ now ⟨k, between, out, forward, rfl⟩
    have reads : j = mid + k := forward.reads
    have writes : write = out.length := forward.writes
    have gap : i + between.length = mid := forward.gap
    have size : out.length = i + k := forward.size
    have inRight := forward.inRight
    subst reads writes
    have nowHolds := forward.holds holds atMid
    have nowParked := forward.beside holds atMid holdsParked apart
    dsimp only
    rw [ends_ite]
    constructor
    · rintro ⟨someLeft, someRight⟩
      rw [← parkedLen] at someLeft
      have unread : k < right.length := by omega
      cases between with
      | nil =>
          rw [List.length_nil] at gap
          omega
      | cons slot between =>
          have leftAt : i = (left.take i).length := by
            rw [List.length_take]
            omega
          have rightAt : mid + k = (out ++ slot :: between).length := by
            rw [List.length_append]
            omega
          have parkedSplit : Holds now.blocks parked (left.take i ++ left[i] :: left.drop (i + 1)) := by
            rw [← List.drop_eq_getElem_cons someLeft, List.take_append_drop]
            exact nowParked
          have toWrite : Holds now.blocks s (out ++ slot :: (between ++ right.drop k)) := by
            rwa [List.append_assoc, List.cons_append] at nowHolds
          rw [List.drop_eq_getElem_cons unread] at nowHolds
          simp only [ends_bind, ends_get nowParked someLeft, ends_get_at nowHolds rightAt]
          rw [ends_ite]
          constructor
          · intro rightFirst
            rw [ends_bind]
            apply ends_emit_at toWrite nowHolds rfl rightAt (Or.inr (by omega))
            intro later put
            rw [ends_pure]
            refine ⟨_, ?_, _, _, _, forward.takeRight holds atMid someLeft unread rightFirst put, rfl⟩
            rw [List.length_append, List.length_singleton]
            omega
          · intro leftFirst
            rw [ends_bind]
            apply ends_emit_at toWrite parkedSplit rfl leftAt (slot_apart apart (by omega) (by omega))
            intro later put
            rw [ends_pure]
            refine ⟨_, ?_, _, _, _, forward.takeLeft holds atMid someLeft unread leftFirst put, rfl⟩
            rw [List.length_append, List.length_singleton]
            omega
    · intro used
      rw [ends_pure]
      exact forward.ends_rest holds atMid length holdsParked apart (by dsimp only; omega) done
  · refine ⟨⟨rfl, rfl⟩, rfl, Nat.zero_le _, ?_, rfl, rfl, ?_⟩
    · dsimp only
      omega
    · rw [List.nil_append, List.drop_zero, holds.place_same]

/-- What is still to be merged, and what is written already behind it. -/
def PendingBack (cmp : Cmp α C) (left right : List α) (ctx : C) (final : List α × C) (out : List α) : Prop :=
  (mergeBackBy (rightGoesFirst cmp) left right ctx).1 ++ out = final.1 ∧
    (mergeBackBy (rightGoesFirst cmp) left right ctx).2 = final.2

namespace PendingBack

variable {final : List α × C} {out : List α} {l r : α}

/-- The left elem goes behind the right one. -/
theorem takeLeft (pending : PendingBack cmp (left ++ [l]) (right ++ [r]) ctx final out)
    (behind : (rightGoesFirst cmp l r ctx).1 = true) :
    PendingBack cmp left (right ++ [r]) (rightGoesFirst cmp l r ctx).2 final (l :: out) := by
  unfold PendingBack at pending ⊢
  rw [mergeBackBy_snoc, if_pos behind] at pending
  rwa [List.append_assoc] at pending

/-- On a tie the right elem lands behind. -/
theorem takeRight (pending : PendingBack cmp (left ++ [l]) (right ++ [r]) ctx final out)
    (front : ¬ (rightGoesFirst cmp l r ctx).1 = true) :
    PendingBack cmp (left ++ [l]) right (rightGoesFirst cmp l r ctx).2 final (r :: out) := by
  unfold PendingBack at pending ⊢
  rw [mergeBackBy_snoc, if_neg front] at pending
  rwa [List.append_assoc] at pending

/-- One run is used up; the rest of the other is in front. -/
theorem rest (pending : PendingBack cmp left right ctx final out) (empty : left = [] ∨ right = []) :
    right ++ (left ++ out) = final.1 ∧ ctx = final.2 := by
  unfold PendingBack at pending
  rcases empty with rfl | rfl
  · rwa [mergeBackBy_nil_left] at pending
  · rwa [mergeBackBy_nil_right] at pending

end PendingBack

/-- A backward merge under way: what is unread of the left run is in front, then as many slots as
elems are still parked, then what is written. -/
structure Backward (before : Blocks AlTag (List (Option α))) (s : Span) (cmp : Cmp α C) (left right : List α)
    (final : List α × C) (vars : Merging C) (between out : List α) (now : Blocks AlTag (List (Option α))) : Prop where
  pending : PendingBack cmp (left.take vars.i) (right.take vars.j) vars.ctx final out
  inLeft : vars.i ≤ left.length
  inRight : vars.j ≤ right.length
  gap : between.length = vars.j
  writes : vars.write = vars.i + vars.j
  size : vars.i + vars.j + out.length = s.len
  blocks : now = place before s (left.take vars.i ++ between ++ out)

namespace Backward

variable {old between out : List α} {final : List α × C} {vars : Merging C} {now later : SpanMem α} {slot : α}
  {i j : Nat}

theorem length (backward : Backward heap.blocks s cmp left right final vars between out now.blocks)
    (holds : Holds heap.blocks s (left ++ old)) :
    (left.take vars.i ++ between ++ out).length = (left ++ old).length := by
  have size := backward.size
  have gap := backward.gap
  have inLeft := backward.inLeft
  rw [holds.length]
  simp only [List.length_append, List.length_take]
  omega

theorem holds (backward : Backward heap.blocks s cmp left right final vars between out now.blocks)
    (before : Holds heap.blocks s (left ++ old)) : Holds now.blocks s (left.take vars.i ++ between ++ out) := by
  rw [backward.blocks]
  exact before.placed (backward.length before)

theorem beside (backward : Backward heap.blocks s cmp left right final vars between out now.blocks)
    (before : Holds heap.blocks s (left ++ old)) (holdsParked : Holds heap.blocks parked right)
    (apart : Slice.Apart s.toSlice parked.toSlice) : Holds now.blocks parked right := by
  rw [backward.blocks]
  exact before.beside holdsParked (backward.length before) apart

/-- The last slot of the gap gets the last elem that is unread, whose own slot joins the gap in front. -/
theorem takeLeft (backward : Backward heap.blocks s cmp left right final ⟨i + 1, j + 1, i + 1 + (j + 1), ctx⟩
      (between ++ [slot]) out now.blocks) (before : Holds heap.blocks s (left ++ old))
    (unreadLeft : i < left.length) (unreadRight : j < right.length)
    (behind : (rightGoesFirst cmp left[i] right[j] ctx).1 = true)
    (put : later.blocks = place now.blocks s (left.take (i + 1) ++ between ++ left[i] :: out)) :
    Backward heap.blocks s cmp left right final
      ⟨i, j + 1, i + (j + 1), (rightGoesFirst cmp left[i] right[j] ctx).2⟩ ([left[i]] ++ between) (left[i] :: out)
      later.blocks := by
  have sizes := backward.length before
  rcases backward with ⟨pending, inLeft, inRight, gap, _, size, same⟩
  dsimp only at pending inLeft inRight gap size same sizes
  rw [List.length_append, List.length_singleton] at gap
  rw [List.take_succ_eq_append_getElem unreadLeft, List.take_succ_eq_append_getElem unreadRight] at pending
  have taken := pending.takeLeft behind
  rw [← List.take_succ_eq_append_getElem unreadRight] at taken
  have sizes' : (left.take (i + 1) ++ between ++ left[i] :: out).length = (left ++ old).length := by
    rw [← sizes]
    simp only [List.length_append, List.length_cons, List.length_nil]
    omega
  have moved : left.take (i + 1) ++ between ++ left[i] :: out = left.take i ++ ([left[i]] ++ between) ++ left[i] :: out := by
    rw [List.take_succ_eq_append_getElem unreadLeft]
    simp only [List.append_assoc]
  rw [same, before.place_place sizes sizes', moved] at put
  refine ⟨taken, Nat.le_of_lt unreadLeft, inRight, ?_, rfl, ?_, put⟩
  all_goals
    simp only [List.length_append, List.length_cons, List.length_nil]
    omega

/-- The last slot of the gap gets the last elem that is parked. -/
theorem takeRight (backward : Backward heap.blocks s cmp left right final ⟨i + 1, j + 1, i + 1 + (j + 1), ctx⟩
      (between ++ [slot]) out now.blocks) (before : Holds heap.blocks s (left ++ old))
    (unreadLeft : i < left.length) (unreadRight : j < right.length)
    (front : ¬ (rightGoesFirst cmp left[i] right[j] ctx).1 = true)
    (put : later.blocks = place now.blocks s (left.take (i + 1) ++ between ++ right[j] :: out)) :
    Backward heap.blocks s cmp left right final
      ⟨i + 1, j, i + 1 + j, (rightGoesFirst cmp left[i] right[j] ctx).2⟩ between (right[j] :: out) later.blocks := by
  have sizes := backward.length before
  rcases backward with ⟨pending, inLeft, inRight, gap, _, size, same⟩
  dsimp only at pending inLeft inRight gap size same sizes
  rw [List.length_append, List.length_singleton] at gap
  rw [List.take_succ_eq_append_getElem unreadLeft, List.take_succ_eq_append_getElem unreadRight] at pending
  have taken := pending.takeRight front
  rw [← List.take_succ_eq_append_getElem unreadLeft] at taken
  have sizes' : (left.take (i + 1) ++ between ++ right[j] :: out).length = (left ++ old).length := by
    rw [← sizes]
    simp only [List.length_append, List.length_cons, List.length_nil]
    omega
  rw [same, before.place_place sizes sizes'] at put
  refine ⟨taken, inLeft, Nat.le_of_lt unreadRight, Nat.succ.inj gap, rfl, ?_, put⟩
  simp only [List.length_cons]
  omega

/-- Once a run is used up, the elems that are still parked fill the gap, which is in front then. -/
theorem ends_rest (backward : Backward heap.blocks s cmp left right final vars between out now.blocks)
    (before : Holds heap.blocks s (left ++ old)) (holdsParked : Holds heap.blocks parked right)
    (apart : Slice.Apart s.toSlice parked.toSlice) (some_ : right ≠ []) (room : 0 < s.len)
    (used : vars.i = 0 ∨ vars.j = 0) {post : C -> SpanMem α -> Prop}
    (done : forall later : SpanMem α, later.blocks = place heap.blocks s final.1 -> post final.2 later) :
    Ends (do
      require (vars.j = 0 ∨ vars.write = vars.j)
      copyElems α s 0 parked 0 vars.j
      return vars.ctx) now post := by
  have sizes := backward.length before
  have nowHolds := backward.holds before
  have nowParked := backward.beside before holdsParked apart
  have parkedLen := holdsParked.length
  rcases backward with ⟨pending, inLeft, inRight, gap, writes, size, same⟩
  have empty : left.take vars.i = [] ∨ right.take vars.j = [] := by
    rcases used with none_ | none_
    · exact Or.inl (by rw [none_, List.take_zero])
    · exact Or.inr (by rw [none_, List.take_zero])
  rcases pending.rest empty with ⟨whole, ctxSame⟩
  have ended : vars.j = 0 ∨ vars.write = vars.j := by omega
  have front : left.take vars.i ++ between ++ out = between ++ (left.take vars.i ++ out) := by
    rcases used with none_ | none_
    · rw [none_, List.take_zero, List.nil_append, List.nil_append]
    · rw [List.eq_nil_of_length_eq_zero (gap.trans none_), List.append_nil, List.nil_append]
  have laid : Over now.blocks s ([] ++ between.map some ++ (left.take vars.i ++ out).map some) := by
    rw [List.nil_append, ← List.map_append, ← front]
    exact nowHolds
  have split : Holds now.blocks parked ([] ++ right.take vars.j ++ right.drop vars.j) := by
    rw [List.nil_append, List.take_append_drop]
    exact nowParked
  have read : (right.take vars.j).length = vars.j := by
    rw [List.length_take]
    omega
  have length : final.1.length = (left ++ old).length := by
    rw [← sizes, front, ← whole, List.length_append, List.length_append, List.length_append, List.length_append, read,
      gap]
  have roomThere : 0 + vars.j ≤ s.len := by omega
  have roomHere : 0 + vars.j ≤ parked.len := by omega
  rw [ends_bind, ends_require, ends_bind]
  refine ⟨ended, ?_⟩
  apply ends_copyElems laid split rfl rfl read.symm (by rw [List.length_map, read, gap])
  · intro nothing
    have none_ := laid.length
    rw [List.nil_append, nothing, List.length_nil] at none_
    omega
  · rwa [List.take_append_drop]
  · exact run_apart apart roomThere roomHere
  · intro later put
    rw [List.nil_append, ← List.map_append, whole] at put
    rw [ends_pure, ctxSame]
    apply done
    rw [← before.place_place sizes length, ← same]
    exact put

end Backward

theorem ends_mergeBackward {old : List α} {mid : Nat} (holds : Holds heap.blocks s (left ++ old))
    (holdsParked : Holds heap.blocks parked right) (atMid : left.length = mid) (length : old.length = right.length)
    (some_ : right ≠ []) (apart : Slice.Apart s.toSlice parked.toSlice) {post : C -> SpanMem α -> Prop}
    (done : forall later : SpanMem α,
      later.blocks = place heap.blocks s (mergeBackBy (rightGoesFirst cmp) left right ctx).1 ->
      post (mergeBackBy (rightGoesFirst cmp) left right ctx).2 later) :
    Ends (mergeBackward s mid cmp ctx parked) heap post := by
  have total := holds.length
  rw [List.length_append, atMid, length] at total
  have parkedLen := holdsParked.length
  rw [mergeBackward, ends_bind]
  refine ends_loop (fun rounds (vars : Merging C) now => (exists between out,
    Backward heap.blocks s cmp left right (mergeBackBy (rightGoesFirst cmp) left right ctx) vars between out
      now.blocks) ∧ rounds = vars.i + vars.j) ?_ (n := s.len) ⟨⟨old, [], ?_⟩, by dsimp only; omega⟩ (Nat.lt_succ_self _)
  · rintro rounds ⟨i, j, write, ctx'⟩ now ⟨⟨between, out, backward⟩, rfl⟩
    have writes : write = i + j := backward.writes
    subst writes
    dsimp only
    rw [ends_ite]
    constructor
    · rintro ⟨someLeft, someRight⟩
      obtain ⟨i, rfl⟩ : exists k, i = k + 1 := ⟨i - 1, by omega⟩
      obtain ⟨j, rfl⟩ : exists k, j = k + 1 := ⟨j - 1, by omega⟩
      have unreadLeft : i < left.length := backward.inLeft
      have unreadRight : j < right.length := backward.inRight
      rcases List.eq_nil_or_concat between with rfl | ⟨between, slot, rfl⟩
      · cases backward.gap
      rw [List.concat_eq_append] at backward
      have nowHolds := backward.holds holds
      have nowParked := backward.beside holds holdsParked apart
      have gap := backward.gap
      dsimp only at nowHolds gap ⊢
      rw [List.length_append, List.length_singleton] at gap
      have leftAt : i + 1 - 1 = (left.take i).length := by
        rw [List.length_take]
        omega
      have rightAt : j + 1 - 1 = (right.take j).length := by
        rw [List.length_take]
        omega
      have writeAt : i + 1 + (j + 1) - 1 = (left.take (i + 1) ++ between).length := by
        rw [List.length_append, List.length_take]
        omega
      have toRead : Holds now.blocks s (left.take i ++ left[i] :: (between ++ [slot] ++ out)) := by
        rw [List.take_succ_eq_append_getElem unreadLeft] at nowHolds
        simpa only [List.append_assoc, List.cons_append, List.nil_append] using nowHolds
      have toWrite : Holds now.blocks s (left.take (i + 1) ++ between ++ slot :: out) := by
        simpa only [List.append_assoc, List.cons_append, List.nil_append] using nowHolds
      have parkedSplit : Holds now.blocks parked (right.take j ++ right[j] :: right.drop (j + 1)) := by
        rw [← List.drop_eq_getElem_cons unreadRight, List.take_append_drop]
        exact nowParked
      simp only [ends_bind, ends_get_at toRead leftAt, ends_get_at parkedSplit rightAt]
      rw [ends_ite]
      constructor
      · intro behind
        rw [ends_bind]
        apply ends_emit_at toWrite toRead writeAt leftAt (Or.inr (by omega))
        intro later put
        rw [ends_pure]
        have writes : i + 1 + (j + 1) - 1 = i + (j + 1) := by omega
        rw [writes]
        exact ⟨_, Nat.lt_of_lt_of_eq (Nat.lt_succ_self _) (Nat.succ_add _ _).symm,
          ⟨_, _, backward.takeLeft holds unreadLeft unreadRight behind put⟩, rfl⟩
      · intro front
        rw [ends_bind]
        apply ends_emit_at toWrite parkedSplit writeAt rightAt (slot_apart apart (by omega) (by omega))
        intro later put
        rw [ends_pure]
        exact ⟨_, Nat.lt_succ_self _, ⟨_, _, backward.takeRight holds unreadLeft unreadRight front put⟩, rfl⟩
    · intro used
      have room : 0 < s.len := by
        have positive := List.length_pos_of_ne_nil some_
        omega
      rw [ends_pure]
      exact backward.ends_rest holds holdsParked apart some_ room (by dsimp only; omega) done
  · constructor <;> dsimp only
    · rw [← atMid, ← parkedLen, List.take_length, List.take_length]
      exact ⟨List.append_nil _, rfl⟩
    all_goals try omega
    · rw [List.length_nil]
      omega
    · rw [← atMid, List.take_length, List.append_nil, holds.place_same]

end Span
end TerseDsa
