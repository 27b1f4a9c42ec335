import TerseDsa.Algo.Merge
import TerseDsa.Foundation.Combining
import Mathlib.Data.Int.Order.Basic

namespace TerseDsa

open Foundation Run

/-!
# `algo/set`

Set operations over two spans sorted by one comparator.  The four that write are
one walk, which differs in what it emits; whatever the comparator answers, it
writes what `combine` keeps.
-/

namespace Span

variable {α C : Type} {heap mid : SpanMem α} {dst a b sup sub_ : Span} {cells : List (Option α)}
  {left right elems : List α} {cmp : Cmp α C} {ctx : C} {order : α -> α -> Int} {keep : Keeping}

/-- `tda_emit`, where the walk emits. -/
def emitIf (α : Type) (kept : Bool) (dst : Span) (write : Nat) (src : Span) (idx : Nat) : Run (SpanMem α) Nat :=
  if kept = true then emit α dst write src idx else pure write

/-- `tda_emit_rest`, where the walk emits what is left. -/
def emitRestIf (α : Type) (kept : Bool) (dst : Span) (write : Nat) (src : Span) (idx : Nat) : Run (SpanMem α) Nat :=
  if kept = true then emitRest α dst write src idx else pure write

/-- The walk of the four set operations. -/
def setWalk (keep : Keeping) (room : Nat) (dst a b : Span) (cmp : Cmp α C) (ctx : C) : Run (SpanMem α) (Nat × C) := do
  assertSpan dst
  assertSpan a
  assertSpan b
  require (dst.elem = a.elem)
  require (dst.elem = b.elem)
  require (dst.len ≥ room)
  require (¬ Overlap dst a)
  require (¬ Overlap dst b)
  let vars ← loop (fun (vars : Merging C) => do
    if vars.i < a.len ∧ vars.j < b.len then
      let lhs ← get a vars.i
      let rhs ← get b vars.j
      let (order, ctx) := cmp lhs rhs vars.ctx
      if order < 0 then
        let write ← emitIf α keep.left dst vars.write a vars.i
        return .again ⟨vars.i + 1, vars.j, write, ctx⟩
      else if order > 0 then
        let write ← emitIf α keep.right dst vars.write b vars.j
        return .again ⟨vars.i, vars.j + 1, write, ctx⟩
      else
        let write ← emitIf α keep.both dst vars.write a vars.i
        return .again ⟨vars.i + 1, vars.j + 1, write, ctx⟩
    else
      return .leave vars)
    (a.len + b.len + 1) ⟨0, 0, 0, ctx⟩
  let write ← emitRestIf α keep.left dst vars.write a vars.i
  let write ← emitRestIf α keep.right dst write b vars.j
  return (write, vars.ctx)

/-- `tda_span_set_union`. -/
def setUnion (dst a b : Span) (cmp : Cmp α C) (ctx : C) : Run (SpanMem α) (Nat × C) :=
  setWalk ⟨true, true, true⟩ (a.len + b.len) dst a b cmp ctx

/-- `tda_span_set_intersection`. -/
def setIntersection (dst a b : Span) (cmp : Cmp α C) (ctx : C) : Run (SpanMem α) (Nat × C) :=
  setWalk ⟨false, false, true⟩ (if a.len < b.len then a.len else b.len) dst a b cmp ctx

/-- `tda_span_set_difference`. -/
def setDifference (dst a b : Span) (cmp : Cmp α C) (ctx : C) : Run (SpanMem α) (Nat × C) :=
  setWalk ⟨true, false, false⟩ a.len dst a b cmp ctx

/-- `tda_span_set_symmetric_difference`. -/
def setSymmetricDifference (dst a b : Span) (cmp : Cmp α C) (ctx : C) : Run (SpanMem α) (Nat × C) :=
  setWalk ⟨true, true, false⟩ (a.len + b.len) dst a b cmp ctx

/-- The loop of `tda_span_includes` that advances `sup` to the elem being matched. -/
def skipBelow (sup : Span) (want : α) (cmp : Cmp α C) (i : Nat) (ctx : C) : Run (SpanMem α) (Nat × C) :=
  loop (fun (vars : Nat × C) => do
    let (i, ctx) := vars
    if i < sup.len then
      let elem ← get sup i
      let (order, ctx) := cmp elem want ctx
      if order < 0 then
        return .again (i + 1, ctx)
      else
        return .leave (i, ctx)
    else
      return .leave (i, ctx))
    (sup.len + 1) (i, ctx)

/-- `tda_span_includes`. -/
def includes (sup sub_ : Span) (cmp : Cmp α C) (ctx : C) : Run (SpanMem α) (Bool × C) := do
  assertSpan sup
  assertSpan sub_
  loop (fun (vars : Nat × Nat × C) => do
    let (j, i, ctx) := vars
    if j < sub_.len then
      let want ← get sub_ j
      let (i, ctx) ← skipBelow sup want cmp i ctx
      if i = sup.len then
        return .leave (false, ctx)
      let elem ← get sup i
      let (order, ctx) := cmp elem want ctx
      if order > 0 then
        return .leave (false, ctx)
      return .again (j + 1, i + 1, ctx)
    else
      return .leave (true, ctx))
    (sub_.len + 1) (0, 0, ctx)

/-! ## The walk -/

/-- The sign of what the comparator answers. -/
def asked (cmp : Cmp α C) (lhs rhs : α) (ctx : C) : Ordering × C :=
  (compare (cmp lhs rhs ctx).1 0, (cmp lhs rhs ctx).2)

theorem asked_lt {lhs rhs : α} : (asked cmp lhs rhs ctx).1 = .lt <-> (cmp lhs rhs ctx).1 < 0 := compare_lt_iff_lt

theorem asked_gt {lhs rhs : α} : (asked cmp lhs rhs ctx).1 = .gt <-> (cmp lhs rhs ctx).1 > 0 := compare_gt_iff_gt

theorem asked_eq {lhs rhs : α} (notLess : ¬ (cmp lhs rhs ctx).1 < 0) (notGreater : ¬ (cmp lhs rhs ctx).1 > 0) :
    (asked cmp lhs rhs ctx).1 = .eq :=
  compare_eq_iff_eq.mpr (Int.le_antisymm (Int.not_lt.mp notGreater) (Int.not_lt.mp notLess))

theorem asked_decides (orders : cmp.Orders order) : Decides (asked cmp) (Cmp.le order) := by
  intro lhs rhs ctx
  have signs := orders.antisymm lhs rhs
  rw [asked_lt, asked_gt, orders.answers]
  unfold Cmp.le
  omega

/-- What the walk has still to do, and what it has written. -/
def Walked (keep : Keeping) (cmp : Cmp α C) (left right : List α) (ctx : C) (final : List α × C)
    (out : List α) : Prop :=
  out ++ (combine keep (asked cmp) left right ctx).1 = final.1 ∧ (combine keep (asked cmp) left right ctx).2 = final.2

theorem append_consIf (kept : Bool) (out rest : List α) (x : α) :
    out ++ consIf kept x rest = out ++ allIf kept [x] ++ rest := by
  cases kept with
  | false => rw [consIf, if_neg Bool.false_ne_true, allIf, if_neg Bool.false_ne_true, List.append_nil]
  | true => rw [consIf, if_pos rfl, allIf, if_pos rfl, List.append_assoc, List.singleton_append]

namespace Walked

variable {final : List α × C} {out : List α} {l r : α}

theorem takeLeft (walked : Walked keep cmp (l :: left) (r :: right) ctx final out)
    (less : (cmp l r ctx).1 < 0) :
    Walked keep cmp left (r :: right) (cmp l r ctx).2 final (out ++ allIf keep.left [l]) := by
  unfold Walked at walked ⊢
  rw [combine_lt (asked_lt.mpr less)] at walked
  rwa [← append_consIf]

theorem takeRight (walked : Walked keep cmp (l :: left) (r :: right) ctx final out)
    (greater : (cmp l r ctx).1 > 0) :
    Walked keep cmp (l :: left) right (cmp l r ctx).2 final (out ++ allIf keep.right [r]) := by
  unfold Walked at walked ⊢
  rw [combine_gt (asked_gt.mpr greater)] at walked
  rwa [← append_consIf]

theorem takeBoth (walked : Walked keep cmp (l :: left) (r :: right) ctx final out)
    (notLess : ¬ (cmp l r ctx).1 < 0) (notGreater : ¬ (cmp l r ctx).1 > 0) :
    Walked keep cmp left right (cmp l r ctx).2 final (out ++ allIf keep.both [l]) := by
  unfold Walked at walked ⊢
  rw [combine_eq (asked_eq notLess notGreater)] at walked
  rwa [← append_consIf]

/-- One list is used up; what is kept of the other follows. -/
theorem rest (walked : Walked keep cmp left right ctx final out) (empty : left = [] ∨ right = []) :
    out ++ allIf keep.left left ++ allIf keep.right right = final.1 ∧ ctx = final.2 := by
  unfold Walked at walked
  rcases empty with rfl | rfl
  · rw [combine_nil_left] at walked
    rwa [allIf_nil, List.append_nil]
  · rw [combine_nil_right] at walked
    rwa [allIf_nil, List.append_nil]

theorem fits (walked : Walked keep cmp left right ctx final out) : out.length ≤ final.1.length := by
  rw [← walked.1, List.length_append]
  exact Nat.le_add_right _ _

end Walked

theorem ends_emitIf {kept : Bool} {src : Span} {out : List α} {idx : Nat} (laid : Over heap.blocks dst cells)
    (same : mid.blocks = Slice.fill heap.blocks dst.toSlice (written out cells))
    (holds : Holds heap.blocks src elems) (inside : idx < elems.length)
    (room : (out ++ allIf kept [elems[idx]]).length ≤ cells.length)
    (apart : Slice.Apart dst.toSlice src.toSlice) {post : Nat -> SpanMem α -> Prop}
    (done : forall later : SpanMem α,
      later.blocks = Slice.fill heap.blocks dst.toSlice (written (out ++ allIf kept [elems[idx]]) cells) ->
      post (out ++ allIf kept [elems[idx]]).length later) :
    Ends (emitIf α kept dst out.length src idx) mid post := by
  have fits : out.length ≤ cells.length := by
    rw [List.length_append] at room
    omega
  unfold emitIf
  cases kept with
  | false =>
      rw [if_neg Bool.false_ne_true, ends_pure]
      rw [allIf, if_neg Bool.false_ne_true, List.append_nil] at done
      exact done mid same
  | true =>
      rw [if_pos rfl]
      rw [allIf, if_pos rfl, List.length_append, List.length_singleton] at room done
      have now : Over mid.blocks dst (written out cells) := laid.asWritten same fits
      have shown : Holds mid.blocks src elems := laid.besideWritten holds same fits apart
      apply ends_emitWritten now shown room inside apart
      intro later put
      have next : (out ++ [elems[idx]]).length ≤ cells.length := by rwa [List.length_append, List.length_singleton]
      rw [same, laid.slots.fill_fill (length_written fits) (length_written next)] at put
      exact done later put

theorem ends_emitRestIf {kept : Bool} {src : Span} {out : List α} {idx : Nat} (laid : Over heap.blocks dst cells)
    (same : mid.blocks = Slice.fill heap.blocks dst.toSlice (written out cells))
    (holds : Holds heap.blocks src elems) (inside : idx ≤ elems.length)
    (room : (out ++ allIf kept (elems.drop idx)).length ≤ cells.length)
    (apart : Slice.Apart dst.toSlice src.toSlice) {post : Nat -> SpanMem α -> Prop}
    (done : forall later : SpanMem α,
      later.blocks = Slice.fill heap.blocks dst.toSlice (written (out ++ allIf kept (elems.drop idx)) cells) ->
      post (out ++ allIf kept (elems.drop idx)).length later) :
    Ends (emitRestIf α kept dst out.length src idx) mid post := by
  have fits : out.length ≤ cells.length := by
    rw [List.length_append] at room
    omega
  unfold emitRestIf
  cases kept with
  | false =>
      rw [if_neg Bool.false_ne_true, ends_pure]
      rw [allIf, if_neg Bool.false_ne_true, List.append_nil] at done
      exact done mid same
  | true =>
      rw [if_pos rfl]
      rw [allIf, if_pos rfl] at room done
      have now : Over mid.blocks dst (written out cells) := laid.asWritten same fits
      have shown : Holds mid.blocks src elems := laid.besideWritten holds same fits apart
      apply ends_restWritten now shown inside (by rwa [List.length_append] at room) apart
      intro later put
      rw [same, laid.slots.fill_fill (length_written fits) (length_written room)] at put
      exact done later put

/-- Whatever the comparator answers, the walk writes what it keeps of the two spans to the front of `dst`. -/
theorem ends_setWalk {room : Nat} (laid : Over heap.blocks dst cells) (holdsLeft : Holds heap.blocks a left)
    (holdsRight : Holds heap.blocks b right) (sameLeft : dst.elem = a.elem) (sameRight : dst.elem = b.elem)
    (enough : dst.len ≥ room) (covers : keep.room left.length right.length ≤ room) (apartLeft : ¬ Overlap dst a)
    (apartRight : ¬ Overlap dst b) {post : Nat × C -> SpanMem α -> Prop}
    (done : forall later : SpanMem α, later.blocks =
        Slice.fill heap.blocks dst.toSlice (written (combine keep (asked cmp) left right ctx).1 cells) ->
      post ((combine keep (asked cmp) left right ctx).1.length, (combine keep (asked cmp) left right ctx).2) later) :
    Ends (setWalk keep room dst a b cmp ctx) heap post := by
  have total : (combine keep (asked cmp) left right ctx).1.length ≤ cells.length := by
    rw [laid.length]
    exact (length_combine_le.trans covers).trans enough
  have besideLeft := apart_of_not_overlap apartLeft
  have besideRight := apart_of_not_overlap apartRight
  have lengthLeft := holdsLeft.length
  have lengthRight := holdsRight.length
  have both : ¬ Overlap dst a ∧ ¬ Overlap dst b := ⟨apartLeft, apartRight⟩
  simp only [setWalk, ends_bind, ends_assertSpan laid.asserts, ends_assertSpan (Over.asserts holdsLeft),
    ends_assertSpan (Over.asserts holdsRight), ends_require]
  refine ⟨sameLeft, sameRight, enough, both.1, both.2, ?_⟩
  refine ends_loop (fun rounds (vars : Merging C) mid => exists out,
    Walked keep cmp (left.drop vars.i) (right.drop vars.j) vars.ctx (combine keep (asked cmp) left right ctx) out ∧
      vars.write = out.length ∧ vars.i ≤ left.length ∧ vars.j ≤ right.length ∧
      mid.blocks = Slice.fill heap.blocks dst.toSlice (written out cells) ∧
      rounds = left.length + right.length - (vars.i + vars.j)) ?_ (n := left.length + right.length)
    ⟨[], ⟨rfl, rfl⟩, rfl, Nat.zero_le _, Nat.zero_le _, laid.slots.fill_same.symm, rfl⟩ (by omega)
  rintro rounds ⟨i, j, write, ctx'⟩ mid ⟨out, walked, at_, inLeft, inRight, same, rfl⟩
  dsimp only at walked at_ inLeft inRight ⊢
  subst at_
  have fits := walked.fits
  have now : Over mid.blocks dst (written out cells) := laid.asWritten same (by omega)
  have nowLeft : Holds mid.blocks a left := laid.besideWritten holdsLeft same (by omega) besideLeft
  have nowRight : Holds mid.blocks b right := laid.besideWritten holdsRight same (by omega) besideRight
  rw [ends_ite]
  constructor
  · rintro ⟨someLeft, someRight⟩
    rw [← lengthLeft] at someLeft
    rw [← lengthRight] at someRight
    have restLeft := List.drop_eq_getElem_cons someLeft
    have restRight := List.drop_eq_getElem_cons someRight
    rw [restLeft, restRight] at walked
    simp only [ends_bind, ends_get nowLeft someLeft, ends_get nowRight someRight]
    rw [ends_ite]
    constructor
    · intro less
      have next := walked.takeLeft less
      rw [ends_bind]
      apply ends_emitIf laid same holdsLeft someLeft (next.fits.trans total) besideLeft
      intro later put
      rw [ends_pure]
      rw [← restRight] at next
      exact ⟨left.length + right.length - (i + 1 + j), by omega, _, next, rfl, someLeft, inRight, put, rfl⟩
    · intro notLess
      rw [ends_ite]
      constructor
      · intro greater
        have next := walked.takeRight greater
        rw [ends_bind]
        apply ends_emitIf laid same holdsRight someRight (next.fits.trans total) besideRight
        intro later put
        rw [ends_pure]
        rw [← restLeft] at next
        exact ⟨left.length + right.length - (i + (j + 1)), by omega, _, next, rfl, inLeft, someRight, put, rfl⟩
      · intro notGreater
        have next := walked.takeBoth notLess notGreater
        rw [ends_bind]
        apply ends_emitIf laid same holdsLeft someLeft (next.fits.trans total) besideLeft
        intro later put
        rw [ends_pure]
        exact ⟨left.length + right.length - (i + 1 + (j + 1)), by omega, _, next, rfl, someLeft, someRight, put, rfl⟩
  · intro used
    have empty : left.drop i = [] ∨ right.drop j = [] := by
      rw [List.drop_eq_nil_iff, List.drop_eq_nil_iff, lengthLeft, lengthRight]
      omega
    rcases walked.rest empty with ⟨whole, ctxSame⟩
    have room_ : (out ++ allIf keep.left (left.drop i) ++ allIf keep.right (right.drop j)).length ≤ cells.length := by
      rwa [whole]
    rw [ends_pure]
    apply ends_emitRestIf laid same holdsLeft inLeft (by rw [List.length_append] at room_; omega) besideLeft
    intro next put
    apply ends_emitRestIf laid put holdsRight inRight room_ besideRight
    intro later final
    rw [whole] at final ⊢
    rw [ends_pure, ctxSame]
    exact done later final

/-! ## Including -/

/-- Behind the elems that go before the one wanted. -/
theorem ends_skipBelow {want : α} {wanted : List α} {final : Bool × C} (holds : Holds heap.blocks sup elems) {i : Nat}
    (inside : i ≤ elems.length) (open_ : includesBy (asked cmp) (elems.drop i) (want :: wanted) ctx = final)
    {post : Nat × C -> SpanMem α -> Prop}
    (done : forall i ctx, (i = elems.length ∧ final = (false, ctx) ∨ exists inside : i < elems.length,
      (if (asked cmp elems[i] want ctx).1 = .gt then (false, (asked cmp elems[i] want ctx).2)
        else includesBy (asked cmp) (elems.drop (i + 1)) wanted (asked cmp elems[i] want ctx).2) = final) ->
      post (i, ctx) heap) :
    Ends (skipBelow sup want cmp i ctx) heap post := by
  have length := holds.length
  unfold skipBelow
  refine ends_loop (fun rounds (vars : Nat × C) mid => mid = heap ∧ vars.1 ≤ elems.length ∧
    includesBy (asked cmp) (elems.drop vars.1) (want :: wanted) vars.2 = final ∧ rounds = elems.length - vars.1) ?_
    ⟨rfl, inside, open_, rfl⟩ (by omega)
  rintro rounds ⟨i, ctx⟩ _ ⟨rfl, within, same, rfl⟩
  dsimp only at within same ⊢
  rw [ends_ite]
  constructor
  · intro more
    rw [← length] at more
    rw [List.drop_eq_getElem_cons more, includesBy_cons] at same
    rw [ends_bind, ends_get holds more, ends_ite]
    constructor
    · intro below
      rw [if_pos (asked_lt.mpr below)] at same
      rw [ends_pure]
      exact ⟨elems.length - (i + 1), by omega, rfl, more, same, rfl⟩
    · intro notBelow
      rw [if_neg (fun less => notBelow (asked_lt.mp less))] at same
      rw [ends_pure]
      exact done i _ (Or.inr ⟨more, same⟩)
  · intro used
    have all : i = elems.length := by omega
    rw [all, List.drop_length, includesBy_nil_cons] at same
    rw [ends_pure]
    exact done i ctx (Or.inl ⟨all, same.symm⟩)

theorem ends_includes (holdsSup : Holds heap.blocks sup left) (holdsSub : Holds heap.blocks sub_ right)
    {post : Bool × C -> SpanMem α -> Prop} (done : post (includesBy (asked cmp) left right ctx) heap) :
    Ends (includes sup sub_ cmp ctx) heap post := by
  have lengthSup := holdsSup.length
  have lengthSub := holdsSub.length
  simp only [includes, ends_bind, ends_assertSpan (Over.asserts holdsSup), ends_assertSpan (Over.asserts holdsSub)]
  refine ends_loop (fun rounds (vars : Nat × Nat × C) mid => mid = heap ∧ vars.1 ≤ right.length ∧
    vars.2.1 ≤ left.length ∧ rounds = right.length - vars.1 ∧
      includesBy (asked cmp) (left.drop vars.2.1) (right.drop vars.1) vars.2.2 =
        includesBy (asked cmp) left right ctx) ?_
    ⟨rfl, Nat.zero_le _, Nat.zero_le _, rfl, rfl⟩ (by omega)
  rintro rounds ⟨j, i, ctx'⟩ _ ⟨rfl, inSub, inSup, rfl, same⟩
  dsimp only at inSub inSup same ⊢
  rw [ends_ite]
  constructor
  · intro more
    rw [← lengthSub] at more
    rw [List.drop_eq_getElem_cons more] at same
    simp only [ends_bind, ends_get holdsSub more]
    apply ends_skipBelow holdsSup inSup same
    intro i ctx after
    rw [ends_ite]
    constructor
    · intro used
      rcases after with ⟨_, answer⟩ | ⟨inside, _⟩
      · rw [ends_pure, ← answer]
        exact done
      · omega
    · intro left_
      rcases after with ⟨used, _⟩ | ⟨inside, answer⟩
      · omega
      · rw [ends_bind, ends_get holdsSup inside, ends_ite]
        constructor
        · intro above
          rw [if_pos (asked_gt.mpr above)] at answer
          rw [ends_pure]
          rw [← answer] at done
          exact done
        · intro notAbove
          rw [if_neg (fun greater => notAbove (asked_gt.mp greater))] at answer
          rw [ends_pure]
          exact ⟨right.length - (j + 1), by omega, rfl, more, inside, rfl, answer⟩
  · intro all
    rw [← lengthSub] at all
    rw [List.drop_eq_nil_of_le (Nat.le_of_not_lt all), includesBy_nil] at same
    rw [ends_pure, same]
    exact done

/-! ## The operations on sorted spans -/

/-- What an operation leaves: some elems in front of `dst`, the slots behind them as they were.  The elems
are sorted, and of each class they are those that are `kept` of its elems in the two spans, in their order. -/
def Writes (order : α -> α -> Int) (kept : List α -> List α -> List α) (room : Nat) (heap : SpanMem α) (dst : Span)
    (cells : List (Option α)) (left right : List α) (result : Nat × C) (later : SpanMem α) : Prop :=
  exists out, later.blocks = Slice.fill heap.blocks dst.toSlice (written out cells) ∧ result.1 = out.length ∧
    out.length ≤ room ∧ out.Pairwise (Cmp.le order) ∧ forall x, out.filter (alike (Cmp.le order) x) =
      kept (left.filter (alike (Cmp.le order) x)) (right.filter (alike (Cmp.le order) x))

/-- Two sorted spans, and a place apart from them to write to. -/
structure Operands (heap : SpanMem α) (dst a b : Span) (cells : List (Option α)) (left right : List α)
    (order : α -> α -> Int) : Prop where
  laid : Over heap.blocks dst cells
  holdsLeft : Holds heap.blocks a left
  holdsRight : Holds heap.blocks b right
  sameLeft : dst.elem = a.elem
  sameRight : dst.elem = b.elem
  apartLeft : ¬ Overlap dst a
  apartRight : ¬ Overlap dst b
  sortedLeft : left.Pairwise (Cmp.le order)
  sortedRight : right.Pairwise (Cmp.le order)

/-- How the four operations treat the elems of one class: those of `a` and those of `b` beyond as many;
as many of `a` as there are in `b`; those of `a` beyond as many as are in `b`; what one side has beyond
the other. -/
structure SetOperations (heap : SpanMem α) (dst a b : Span) (cells : List (Option α)) (left right : List α)
    (cmp : Cmp α C) (order : α -> α -> Int) (ctx : C) : Prop where
  union : a.len + b.len ≤ dst.len -> Ends (setUnion dst a b cmp ctx) heap
    (Writes order (fun many few => many ++ few.drop many.length) (a.len + b.len) heap dst cells left right)
  intersection : min a.len b.len ≤ dst.len -> Ends (setIntersection dst a b cmp ctx) heap
    (Writes order (fun many few => many.take few.length) (min a.len b.len) heap dst cells left right)
  difference : a.len ≤ dst.len -> Ends (setDifference dst a b cmp ctx) heap
    (Writes order (fun many few => many.drop few.length) a.len heap dst cells left right)
  symmetricDifference : a.len + b.len ≤ dst.len -> Ends (setSymmetricDifference dst a b cmp ctx) heap
    (Writes order (fun many few => if few.length ≤ many.length then many.drop few.length else few.drop many.length)
      (a.len + b.len) heap dst cells left right)

/-- The walk on sorted spans, for one of the operations. -/
theorem Operands.ends_setWalk {room : Nat} {kept : List α -> List α -> List α}
    (operands : Operands heap dst a b cells left right order) (orders : cmp.Orders order) (enough : room ≤ dst.len)
    (covers : keep.room a.len b.len ≤ room) (classes : forall many few, keep.ofClass many few = kept many few) :
    Ends (setWalk keep room dst a b cmp ctx) heap (Writes order kept room heap dst cells left right) := by
  rw [← operands.holdsLeft.length, ← operands.holdsRight.length] at covers
  apply Span.ends_setWalk operands.laid operands.holdsLeft operands.holdsRight operands.sameLeft operands.sameRight
    enough covers operands.apartLeft operands.apartRight
  intro later put
  refine ⟨_, put, rfl, length_combine_le.trans covers, ?_, fun x => ?_⟩
  · exact combine_sorted orders.preorder (asked_decides orders) operands.sortedLeft operands.sortedRight
  · rw [combine_class orders.preorder (asked_decides orders) operands.sortedLeft operands.sortedRight, classes]

theorem Operands.set_operations (operands : Operands heap dst a b cells left right order) (orders : cmp.Orders order)
    (ctx : C) : SetOperations heap dst a b cells left right cmp order ctx where
  union enough := by
    refine operands.ends_setWalk orders enough (Nat.le_refl _) fun many few => ?_
    simp only [Keeping.ofClass, allIf, if_true, List.take_append_drop]
  intersection enough := by
    have least : (if a.len < b.len then a.len else b.len) = min a.len b.len := by
      split <;> omega
    rw [setIntersection, least]
    refine operands.ends_setWalk orders enough (Nat.le_refl _) fun many few => ?_
    simp only [Keeping.ofClass, allIf, if_true, Bool.false_eq_true, if_false, List.append_nil]
  difference enough := by
    refine operands.ends_setWalk orders enough (Nat.le_refl _) fun many few => ?_
    simp only [Keeping.ofClass, allIf, if_true, Bool.false_eq_true, if_false, List.append_nil, List.nil_append]
  symmetricDifference enough := by
    refine operands.ends_setWalk orders enough (Nat.le_refl _) fun many few => ?_
    simp only [Keeping.ofClass, allIf, if_true, Bool.false_eq_true, if_false, List.nil_append]
    split
    · rename_i fewer
      rw [List.drop_eq_nil_of_le fewer, List.append_nil]
    · rename_i more
      rw [List.drop_eq_nil_of_le (Nat.le_of_not_le more), List.nil_append]

theorem Operands.set_operations_rows :
    Ends (setUnion (rowSpan 0 5) (rowSpan 1 3) (rowSpan 2 2) byValue ())
      (rowsMem [[0, 0, 0, 0, 0], [1, 2, 2], [2, 3]]) (Writes (fun (lhs rhs : Nat) => (lhs : Int) - rhs)
        (fun many few => many ++ few.drop many.length) 5 (rowsMem [[0, 0, 0, 0, 0], [1, 2, 2], [2, 3]]) (rowSpan 0 5)
        ([0, 0, 0, 0, 0].map some) [1, 2, 2] [2, 3]) := by
  have sizes : [0, 0, 0, 0, 0].length < sizeRange ∧ [1, 2, 2].length < sizeRange ∧ [2, 3].length < sizeRange := by
    decide
  have into : Holds (rowsMem [[0, 0, 0, 0, 0], [1, 2, 2], [2, 3]]).blocks (rowSpan 0 5) [0, 0, 0, 0, 0] :=
    rowsMem_holds rfl sizes.1
  have first : Holds (rowsMem [[0, 0, 0, 0, 0], [1, 2, 2], [2, 3]]).blocks (rowSpan 1 3) [1, 2, 2] :=
    rowsMem_holds rfl sizes.2.1
  have second : Holds (rowsMem [[0, 0, 0, 0, 0], [1, 2, 2], [2, 3]]).blocks (rowSpan 2 2) [2, 3] :=
    rowsMem_holds rfl sizes.2.2
  have operands : Operands (rowsMem [[0, 0, 0, 0, 0], [1, 2, 2], [2, 3]]) (rowSpan 0 5) (rowSpan 1 3) (rowSpan 2 2)
      ([0, 0, 0, 0, 0].map some) [1, 2, 2] [2, 3] fun (lhs rhs : Nat) => (lhs : Int) - rhs :=
    ⟨into, first, second, rfl, rfl, by decide, by decide, by decide, by decide⟩
  exact (Operands.set_operations operands byValue_orders ()).union (by decide)

/-! ## The subset test -/

/-- How the subset test answers: by the counts of the elems of each class, as the difference that writes
nothing does, and as the intersection that writes all of `sub` does. -/
structure Inclusion (heap : SpanMem α) (sup sub_ : Span) (left right : List α) (cmp : Cmp α C)
    (order : α -> α -> Int) (ctx : C) : Prop where
  counts : Ends (includes sup sub_ cmp ctx) heap fun result later => later = heap ∧
    (result.1 = true <-> forall x, (right.filter (alike (Cmp.le order) x)).length ≤
      (left.filter (alike (Cmp.le order) x)).length)
  difference : forall dst cells, Operands heap dst sub_ sup cells right left order -> sub_.len ≤ dst.len ->
    Ends (includes sup sub_ cmp ctx) heap fun result _ =>
      Ends (setDifference dst sub_ sup cmp ctx) heap fun out _ => (result.1 = true <-> out.1 = 0)
  intersection : forall dst cells, Operands heap dst sub_ sup cells right left order ->
    min sub_.len sup.len ≤ dst.len -> Ends (includes sup sub_ cmp ctx) heap fun result _ =>
      Ends (setIntersection dst sub_ sup cmp ctx) heap fun out later =>
        (result.1 = true <-> out.1 = sub_.len) ∧
          (result.1 = true -> later.blocks = Slice.fill heap.blocks dst.toSlice (written right cells))

theorem Holds.inclusion (holdsSup : Holds heap.blocks sup left) (holdsSub : Holds heap.blocks sub_ right)
    (sortedSup : left.Pairwise (Cmp.le order)) (sortedSub : right.Pairwise (Cmp.le order))
    (orders : cmp.Orders order) (ctx : C) : Inclusion heap sup sub_ left right cmp order ctx := by
  have finds : forall other, (includesBy (asked cmp) left right ctx).1 = true <->
      (combine ⟨true, false, false⟩ (asked cmp) right left other).1 = [] :=
    fun other => includesBy_iff_difference (asked_decides orders)
  have lengthSub := holdsSub.length
  have lengthSup := holdsSup.length
  constructor
  · apply ends_includes holdsSup holdsSub
    exact ⟨rfl, (finds ctx).trans (difference_eq_nil_iff orders.preorder (asked_decides orders) sortedSub sortedSup)⟩
  · intro dst cells ⟨laid, _, _, sameSub, sameSup, apartSub, apartSup, _, _⟩ enough
    apply ends_includes holdsSup holdsSub
    have covers : (⟨true, false, false⟩ : Keeping).room right.length left.length ≤ sub_.len := Nat.le_of_eq lengthSub
    apply Span.ends_setWalk laid holdsSub holdsSup sameSub sameSup enough covers apartSub apartSup
    intro later _
    exact (finds ctx).trans List.length_eq_zero_iff.symm
  · intro dst cells ⟨laid, _, _, sameSub, sameSup, apartSub, apartSup, _, _⟩ enough
    have least : (if sub_.len < sup.len then sub_.len else sup.len) = min sub_.len sup.len := by
      split <;> omega
    apply ends_includes holdsSup holdsSub
    rw [setIntersection, least]
    have covers : (⟨false, false, true⟩ : Keeping).room right.length left.length ≤ min sub_.len sup.len := by
      rw [lengthSub, lengthSup]
      exact Nat.le_refl _
    apply Span.ends_setWalk laid holdsSub holdsSup sameSub sameSup enough covers apartSub apartSup
    intro later put
    have parts : (combine ⟨false, false, true⟩ (asked cmp) right left ctx).1.length +
        (combine ⟨true, false, false⟩ (asked cmp) right left ctx).1.length = right.length :=
      length_intersection_add_difference
    refine ⟨(finds ctx).trans (List.length_eq_zero_iff.symm.trans ?_), fun all => ?_⟩
    · dsimp only
      omega
    · rw [put, intersection_of_difference_nil ((finds ctx).mp all)]

theorem Holds.inclusion_rows : Ends (includes (rowSpan 1 3) (rowSpan 0 2) byValue ())
    (rowsMem [[1, 2], [1, 2, 2]]) fun result later => later = rowsMem [[1, 2], [1, 2, 2]] ∧
      (result.1 = true <-> forall x,
        ([1, 2].filter (alike (Cmp.le fun (lhs rhs : Nat) => (lhs : Int) - rhs) x)).length ≤
          ([1, 2, 2].filter (alike (Cmp.le fun (lhs rhs : Nat) => (lhs : Int) - rhs) x)).length) := by
  have sizes : [1, 2].length < sizeRange ∧ [1, 2, 2].length < sizeRange := by decide
  have holdsSub : Holds (rowsMem [[1, 2], [1, 2, 2]]).blocks (rowSpan 0 2) [1, 2] := rowsMem_holds rfl sizes.1
  have holdsSup : Holds (rowsMem [[1, 2], [1, 2, 2]]).blocks (rowSpan 1 3) [1, 2, 2] := rowsMem_holds rfl sizes.2
  exact (Holds.inclusion holdsSup holdsSub (by decide) (by decide) byValue_orders ()).counts

end Span
end TerseDsa
