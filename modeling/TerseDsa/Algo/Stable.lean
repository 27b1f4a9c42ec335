import TerseDsa.Algo.Filter
import TerseDsa.Algo.Insertion
import TerseDsa.Algo.Merge
import TerseDsa.Foundation.Passes
import TerseDsa.Foundation.Selection

namespace TerseDsa

open Foundation Run

/-!
# `algo/sort`: the stable sort

The runs of a span and those of a buffer of its length are merged to and fro,
and the buffer is given back.  The counters of the passes wrap around; they do
not where the address space holds the span and the buffer besides.
-/

namespace Span

variable {α C : Type} {heap : SpanMem α} {s src dst : Span} {elems out : List α} {cells : List (Option α)}
  {cmp : Cmp α C} {ctx : C} {width : Nat}

/-- The body of a pass of `tda_span_sort_stable`: the two runs from `i` on are merged. -/
def mergePair (src dst : Span) (len width i : Nat) (cmp : Cmp α C) (ctx : C) : Run (SpanMem α) C := do
  let mid := if wrapAdd i width < len then wrapAdd i width else len
  let end_ := if wrapAdd i (wrapMul 2 width) < len then wrapAdd i (wrapMul 2 width) else len
  let whole ← sub dst i (end_ - i)
  let left ← sub src i (mid - i)
  let right ← sub src mid (end_ - mid)
  merge whole left right cmp ctx

/-- A pass of `tda_span_sort_stable`. -/
def mergePass (src dst : Span) (len width : Nat) (cmp : Cmp α C) (ctx : C) : Run (SpanMem α) C :=
  loop (fun (vars : Nat × C) => do
    let (i, ctx) := vars
    if i < len then
      let ctx ← mergePair src dst len width i cmp ctx
      return .again (wrapAdd i (wrapMul 2 width), ctx)
    else
      return .leave ctx)
    (len + 1) (0, ctx)

/-- The variables of the passes of `tda_span_sort_stable`. -/
structure Passing (C : Type) where
  width : Nat
  src : Span
  dst : Span
  ctx : C

/-- `tda_span_sort_stable`. -/
def sortStable (s : Span) (cmp : Cmp α C) (ctx : C) (al : Al) : Run (SpanMem α) (Status × C) := do
  assertSpan s
  require (al.isSome = true)
  if s.len < 2 then
    return (.ok, ctx)
  let bufLayout := elemsLayout s.elem s.len
  match ← alloc al bufLayout (List.replicate (bufLayout.size / s.elem.size) none) with
  | none => return (.errNoMem, ctx)
  | some buf => do
      let scratch := whole buf s.elem s.len
      assertSpan scratch
      let vars ← loop (fun (vars : Passing C) => do
        if vars.width < s.len then
          let ctx ← mergePass vars.src vars.dst s.len vars.width cmp vars.ctx
          return .again ⟨wrapMul vars.width 2, vars.dst, vars.src, ctx⟩
        else
          return .leave vars)
        (s.len + 1) ⟨1, s, scratch, ctx⟩
      -- an odd number of passes leaves the result in the buffer
      if vars.src.data ≠ s.data ∨ vars.src.start ≠ s.start then
        copy α s vars.src
      dealloc al (some buf) bufLayout
      return (.ok, vars.ctx)

/-! ## A pass -/

/-- Parts of slices that share no cell do not overlap. -/
theorem not_overlap_part {idx count idx' count' : Nat} (apart : Slice.Apart dst.toSlice src.toSlice)
    (inside : idx + count ≤ dst.len) (inside' : idx' + count' ≤ src.len) :
    ¬ Overlap (dst.part idx count) (src.part idx' count') := by
  rintro ⟨some_, some', same, before, behind⟩
  have away := apart same
  dsimp only [part, Slice.part] at some_ some' before behind
  omega

/-- The slots behind those that are written. -/
theorem written_split (count : Nat) : written out cells =
    out.map some ++ (cells.drop out.length).take count ++ (cells.drop out.length).drop count := by
  rw [written, List.append_assoc, List.take_append_drop]

section Behind

variable {count : Nat} {more : List α}

/-- A part of the span is over the slots behind those that are written. -/
theorem Over.behind (laid : Over heap.blocks dst (written out cells)) (room : out.length + count ≤ cells.length) :
    Over heap.blocks (dst.part out.length count) ((cells.drop out.length).take count) := by
  have total := laid.length
  rw [length_written (by omega)] at total
  have slots := laid.slots
  rw [written_split count] at slots
  have shown := slots.part
  have size : ((cells.drop out.length).take count).length = count := by
    rw [List.length_take, List.length_drop]
    omega
  rw [List.length_map, size] at shown
  exact ⟨laid.isType, Nat.lt_of_le_of_lt (Nat.mul_le_mul_left _ (by dsimp only [Span.part, Slice.part]; omega)) laid.fits, shown⟩

theorem Over.place_behind (laid : Over heap.blocks dst (written out cells))
    (room : out.length + more.length ≤ cells.length) :
    place heap.blocks (dst.part out.length more.length) more =
      Slice.fill heap.blocks dst.toSlice (written (out ++ more) cells) := by
  have slots := laid.slots
  rw [written_split more.length] at slots
  have size : ((cells.drop out.length).take more.length).length = more.length := by
    rw [List.length_take, List.length_drop]
    omega
  have filled := slots.fill_part ((List.length_map some).trans size.symm : (more.map some).length = _)
  rw [List.length_map, size] at filled
  rw [place, written, List.map_append, List.length_append, ← List.drop_drop]
  exact filled

end Behind

/-- The two runs from `i` on are merged behind what is written. -/
theorem ends_mergePair {i len : Nat} (holds : Holds heap.blocks src elems)
    (laid : Over heap.blocks dst (written out cells)) (room : cells.length = elems.length)
    (sameElem : dst.elem = src.elem) (apart : Slice.Apart dst.toSlice src.toSlice)
    (small : elems.length + 2 * width ≤ sizeRange) (all : len = elems.length) (here : i = out.length)
    (more : i < elems.length) {post : C -> SpanMem α -> Prop}
    (done : forall later : SpanMem α, later.blocks = Slice.fill heap.blocks dst.toSlice (written (out ++
        (mergeBy (rightGoesFirst cmp) ((elems.drop i).take width) (((elems.drop i).drop width).take width) ctx).1) cells) ->
      post (mergeBy (rightGoesFirst cmp) ((elems.drop i).take width) (((elems.drop i).drop width).take width) ctx).2
        later) :
    Ends (mergePair src dst len width i cmp ctx) heap post := by
  subst all here
  have length := holds.length
  have lengthDst := laid.length
  rw [length_written (by omega)] at lengthDst
  have sizeLeft : ((elems.drop out.length).take width).length = min (out.length + width) elems.length - out.length := by
    rw [List.length_take, List.length_drop]
    omega
  have sizeRight : (((elems.drop out.length).drop width).take width).length =
      min (out.length + 2 * width) elems.length - min (out.length + width) elems.length := by
    rw [List.length_take, List.length_drop, List.length_drop]
    omega
  have start : (elems.take out.length).length = out.length := by
    rw [List.length_take]
    omega
  have split : elems = elems.take out.length ++ (elems.drop out.length).take width ++
      ((elems.drop out.length).drop width).take width ++ elems.drop (out.length + 2 * width) := around_runs out.length
  generalize (elems.drop out.length).take width = left at sizeLeft split done
  generalize ((elems.drop out.length).drop width).take width = right at sizeRight split done
  have double : wrapMul 2 width = 2 * width := wrapMul_eq (by omega)
  have next : wrapAdd out.length (2 * width) = out.length + 2 * width := wrapAdd_eq (by omega)
  have middle : wrapAdd out.length width = out.length + width := wrapAdd_eq (by omega)
  have atMid : (if out.length + width < elems.length then out.length + width else elems.length) =
      out.length + left.length := by
    split <;> omega
  have atEnd : (if out.length + 2 * width < elems.length then out.length + 2 * width else elems.length) =
      out.length + left.length + right.length := by
    split <;> omega
  have within : out.length + left.length + right.length ≤ elems.length := by omega
  clear sizeLeft sizeRight
  have sizes : out.length + left.length + right.length - out.length = left.length + right.length ∧
      out.length + left.length - out.length = left.length ∧
      out.length + left.length + right.length - (out.length + left.length) = right.length := by omega
  have insideDst : out.length + (left.length + right.length) ≤ dst.len := by omega
  have insideLeft : out.length + left.length ≤ src.len := by omega
  have insideRight : out.length + left.length + right.length ≤ src.len := by omega
  have holdsLeft : Holds heap.blocks (src.part out.length left.length) left := by
    rw [split, List.append_assoc _ right] at holds
    have shown := holds.part
    rwa [start] at shown
  have holdsRight : Holds heap.blocks (src.part (out.length + left.length) right.length) right := by
    rw [split] at holds
    have shown := holds.part
    rwa [List.length_append, start] at shown
  simp only [mergePair, double, next, middle, atMid, atEnd, sizes]
  rw [ends_bind, ends_sub laid.asserts insideDst, ends_bind, ends_sub (Over.asserts holds) insideLeft,
    ends_bind, ends_sub (Over.asserts holds) insideRight]
  have behind : Over heap.blocks (dst.part out.length (left.length + right.length)) _ := laid.behind (by omega)
  apply ends_merge behind holdsLeft holdsRight sameElem sameElem rfl
    (not_overlap_part apart insideDst insideLeft) (not_overlap_part apart insideDst insideRight)
  intro later put
  have sizeMerged : (mergeBy (rightGoesFirst cmp) left right ctx).1.length = left.length + right.length := by
    rw [mergeBy_perm.length_eq, List.length_append]
  rw [← sizeMerged, laid.place_behind (by omega)] at put
  exact done later put

/-- A pass merges the runs of one span in pairs into another. -/
theorem ends_mergePass {len : Nat} (holds : Holds heap.blocks src elems) (laid : Over heap.blocks dst cells)
    (sameElem : dst.elem = src.elem) (room : cells.length = elems.length) (apart : Slice.Apart dst.toSlice src.toSlice)
    (sized : 0 < width) (small : elems.length + 2 * width ≤ sizeRange) (all : len = elems.length)
    {post : C -> SpanMem α -> Prop}
    (done : forall later : SpanMem α,
      later.blocks = place heap.blocks dst (mergeRuns (rightGoesFirst cmp) width elems ctx).1 ->
      post (mergeRuns (rightGoesFirst cmp) width elems ctx).2 later) :
    Ends (mergePass src dst len width cmp ctx) heap post := by
  subst all
  refine ends_loop (fun rounds (vars : Nat × C) mid => exists out,
    out ++ (mergeRuns (rightGoesFirst cmp) width (elems.drop vars.1) vars.2).1 =
        (mergeRuns (rightGoesFirst cmp) width elems ctx).1 ∧
      (mergeRuns (rightGoesFirst cmp) width (elems.drop vars.1) vars.2).2 =
        (mergeRuns (rightGoesFirst cmp) width elems ctx).2 ∧
      out.length = min vars.1 elems.length ∧
      mid.blocks = Slice.fill heap.blocks dst.toSlice (written out cells) ∧ rounds = elems.length - vars.1) ?_
    ⟨[], rfl, rfl, (Nat.zero_min _).symm, laid.slots.fill_same.symm, rfl⟩ (Nat.lt_succ_self _)
  rintro rounds ⟨i, ctx'⟩ mid ⟨out, made, state, size, same, rfl⟩
  dsimp only at made state size ⊢
  rw [ends_ite]
  constructor
  · intro more
    have here : i = out.length := by omega
    have some_ : elems.drop i ≠ [] := List.ne_nil_of_length_pos (by rw [List.length_drop]; omega)
    have fits : out.length ≤ cells.length := by omega
    have now : Over mid.blocks dst (written out cells) := laid.asWritten same fits
    have nowHolds : Holds mid.blocks src elems := laid.besideWritten holds same fits apart
    have onward : (elems.drop i).drop (2 * width) = elems.drop (i + 2 * width) := List.drop_drop
    rw [mergeRuns_some sized some_, onward] at made state
    rw [ends_bind]
    apply ends_mergePair nowHolds now room sameElem apart small rfl here more
    intro later put
    have double : wrapMul 2 width = 2 * width := wrapMul_eq (by omega)
    have next : wrapAdd i (2 * width) = i + 2 * width := wrapAdd_eq (by omega)
    rw [double, next, ends_pure]
    refine ⟨elems.length - (i + 2 * width), by omega, out ++
      (mergeBy (rightGoesFirst cmp) ((elems.drop i).take width) (((elems.drop i).drop width).take width) ctx').1,
      ?_, state, ?_, ?_, rfl⟩
    · rw [List.append_assoc]
      exact made
    · rw [List.length_append, mergeBy_perm.length_eq, two_runs, List.length_take, List.length_drop]
      dsimp only
      omega
    · rw [put, same, laid.slots.fill_fill (length_written fits) (length_written ?_)]
      rw [List.length_append, mergeBy_perm.length_eq, two_runs, List.length_take, List.length_drop]
      omega
  · intro past
    have none_ : elems.drop i = [] := List.drop_eq_nil_of_le (Nat.le_of_not_lt past)
    rw [none_, mergeRuns_nil] at made state
    dsimp only at state
    rw [List.append_nil] at made
    have full : out.length = cells.length := by omega
    rw [ends_pure, state]
    apply done mid
    rw [same, written, List.drop_of_length_le (Nat.le_of_eq full.symm), List.append_nil, made, place]

/-! ## All passes -/

/-- The output has the elems of the input, and if the comparator orders them it is the stable sort. -/
structure Sorts (cmp : Cmp α C) (input out : List α) : Prop where
  perm : out.Perm input
  stable : forall order, cmp.Orders order -> StableSort (Cmp.le order) input out

theorem Sorts.of_short (short : elems.length < 2) : Sorts cmp elems elems :=
  ⟨List.Perm.refl _, fun _ _ => ⟨List.Perm.refl _, pairwise_short short, fun _ => rfl⟩⟩

theorem Sorts.merge {left right left' right' : List α} (first : Sorts cmp left left') (second : Sorts cmp right right') :
    Sorts cmp (left ++ right) (mergeBy (rightGoesFirst cmp) left' right' ctx).1 :=
  ⟨mergeBy_perm.trans (first.perm.append second.perm), fun order orders =>
    (first.stable order orders).merge orders.preorder orders.asks (second.stable order orders)⟩

/-- Where the runs are between two passes: in the span, with the buffer to write into, or in the buffer. -/
inductive Turn (blocks : Blocks AlTag (List (Option α))) (s : Span) (buf : Addr) (tag : AlTag) (now : List α) :
    Span -> Span -> Blocks AlTag (List (Option α)) -> Prop
  | here (slots : List (Option α)) (length : slots.length = now.length) :
      Turn blocks s buf tag now s (whole buf s.elem s.len)
        (Function.update (place blocks s now) buf (some ⟨tag, slots⟩))
  | there (old : List α) (length : old.length = now.length) :
      Turn blocks s buf tag now (whole buf s.elem s.len) s
        (Function.update (place blocks s old) buf (some ⟨tag, now.map some⟩))

namespace Turn

variable {blocks mid : Blocks AlTag (List (Option α))} {buf : Addr} {tag : AlTag} {now next : List α}

/-- The runs can be read, and there is room for as many elems elsewhere. -/
theorem spans (turn : Turn blocks s buf tag now src dst mid) (holds : Holds blocks s elems)
    (away : s.data ≠ some buf) (length : now.length = elems.length) :
    Holds mid src now ∧ (exists cells, Over mid dst cells ∧ cells.length = now.length) ∧ dst.elem = src.elem ∧
      Slice.Apart dst.toSlice src.toSlice := by
  have len := holds.length
  cases turn with
  | here slots size =>
      refine ⟨(holds.placed length).beside_block away, ⟨slots, ?_, size⟩, rfl, fun same => absurd same.symm away⟩
      exact over_block holds.isType holds.fits (by omega)
  | there old size =>
      refine ⟨over_block holds.isType holds.fits (by rw [List.length_map]; omega), ?_, rfl, fun same => absurd same away⟩
      refine ⟨old.map some, (holds.placed (size.trans length)).beside_block away, ?_⟩
      rw [List.length_map, size]

/-- A pass goes from one to the other. -/
theorem pass (turn : Turn blocks s buf tag now src dst mid) (holds : Holds blocks s elems)
    (away : s.data ≠ some buf) (length : now.length = elems.length) (lengthNext : next.length = elems.length) :
    Turn blocks s buf tag next dst src (place mid dst next) := by
  have len := holds.length
  cases turn with
  | here slots size =>
      have sizes : (next.map some).length = slots.length := by
        rw [List.length_map]
        omega
      rw [place, fill_block sizes]
      exact there now (length.trans lengthNext.symm)
  | there old size =>
      have put : place (Function.update (place blocks s old) buf (some ⟨tag, now.map some⟩)) s next =
          Function.update (place blocks s next) buf (some ⟨tag, now.map some⟩) := by
        rw [← holds.place_place (size.trans length) lengthNext]
        exact Slice.fill_update away
      rw [put]
      exact here _ (by rw [List.length_map]; omega)

/-- Behind the last pass the elems are copied from the buffer, if they are there, and the buffer is given back. -/
theorem ends_last {al : Al} (turn : Turn heap.blocks s buf (al, elemsLayout s.elem s.len) now src dst mid)
    (holds : Holds heap.blocks s elems) (away : s.data ≠ some buf) (free : heap.blocks buf = none)
    (length : now.length = elems.length) (real : al.isSome = true) (sized : 0 < (elemsLayout s.elem s.len).size)
    {last : SpanMem α} (same : last.blocks = mid) {post : Status × C -> SpanMem α -> Prop}
    (done : forall later : SpanMem α, later.blocks = place heap.blocks s now -> post (.ok, ctx) later) :
    Ends (do
      if src.data ≠ s.data ∨ src.start ≠ s.start then
        copy α s src
      dealloc al (some buf) (elemsLayout s.elem s.len)
      return (Status.ok, ctx)) last post := by
  have freed : forall (last : SpanMem α) (slots : List (Option α)),
      last.blocks = Function.update (place heap.blocks s now) buf (some ⟨(al, elemsLayout s.elem s.len), slots⟩) ->
      Ends (do
        dealloc al (some buf) (elemsLayout s.elem s.len)
        return (Status.ok, ctx)) last post := by
    intro last slots put
    have live : last.blocks buf = some ⟨(al, elemsLayout s.elem s.len), slots⟩ := by
      rw [put, Function.update_self]
    rw [ends_bind, ends_dealloc_some real sized live, ends_pure]
    apply done
    have gone : place heap.blocks s now buf = none := (Slice.fill_elsewhere away).trans free
    rw [Heap.put_blocks, put, Function.update_idem]
    exact Function.update_eq_self_iff.mpr gone.symm
  cases turn with
  | here slots size =>
      have home : ¬ (s.data ≠ s.data ∨ s.start ≠ s.start) := fun away => away.elim (fun no => no rfl) fun no => no rfl
      simp only [if_neg home]
      exact freed last slots same
  | there old size =>
      have elsewhere : (whole buf s.elem s.len).data ≠ s.data ∨ (whole buf s.elem s.len).start ≠ s.start :=
        Or.inl (Ne.symm away)
      have len := holds.length
      have laid : Over last.blocks s (old.map some) := by
        rw [same]
        exact (holds.placed (size.trans length)).beside_block away
      have inBuffer : Holds last.blocks (whole buf s.elem s.len) now := by
        rw [same]
        exact over_block holds.isType holds.fits (by rw [List.length_map]; omega)
      simp only [if_pos elsewhere]
      rw [ends_bind]
      apply ends_copy laid inBuffer rfl rfl
      intro later put
      apply freed later (now.map some)
      rw [put, same, Slice.fill_update away, ← holds.place_place (size.trans length) length]
      rfl

end Turn

/-- What a pass over the runs keeps, once they are twice as wide, holds behind the last pass, where the buffer
is granted; where it is refused nothing is changed. -/
theorem ends_sortStable_passes {al : Al} (holds : Holds heap.blocks s elems) (real : al.isSome = true)
    (fits : heap.Grants -> 2 * (s.elem.size * s.len) ≤ sizeRange) (inv : Nat -> List α -> C -> Prop)
    (start : inv 0 elems ctx)
    (step : forall e now ctx, 2 ^ e < elems.length -> now.length = elems.length -> inv e now ctx ->
      inv (e + 1) (mergeRuns (rightGoesFirst cmp) (2 ^ e) now ctx).1 (mergeRuns (rightGoesFirst cmp) (2 ^ e) now ctx).2)
    {post : Status × C -> SpanMem α -> Prop}
    (refused : 2 ≤ elems.length -> ¬ heap.Grants -> heap.Spared (post (.errNoMem, ctx)))
    (done : elems.length < 2 ∨ heap.Grants -> forall e now ctx (later : SpanMem α), elems.length ≤ 2 ^ e ->
      now.length = elems.length -> inv e now ctx -> later.blocks = place heap.blocks s now -> post (.ok, ctx) later) :
    Ends (sortStable s cmp ctx al) heap post := by
  have len := holds.length
  simp only [sortStable, ends_bind, ends_assertSpan (Over.asserts holds), ends_require, real, true_and]
  by_cases short : s.len < 2
  · rw [if_pos short, ends_pure]
    rw [← len] at short
    exact done (Or.inl short) 0 elems ctx heap (Nat.le_of_lt_succ short) rfl start holds.place_same.symm
  have some_ : elems ≠ [] := List.ne_nil_of_length_pos (by omega)
  have sizePos : 0 < s.elem.size := Layout.size_pos holds.isType
  have bytes : (elemsLayout s.elem s.len).size = s.elem.size * s.len := Nat.mod_eq_of_lt holds.fits
  have slots : (elemsLayout s.elem s.len).size / s.elem.size = elems.length := by
    rw [bytes, Nat.mul_div_cancel_left _ sizePos, len]
  rw [if_neg short, ends_bind, slots]
  apply ends_alloc_answered real
  · intro later denied same
    rw [ends_pure]
    exact refused (by omega) (denied (by rw [bytes]; exact Nat.mul_pos sizePos (by omega))) later same
  intro sized grants buf given free put
  have away := holds.away free some_
  have half : 2 * elems.length ≤ sizeRange := by
    have room := fits grants
    have more : s.len ≤ s.elem.size * s.len := Nat.le_mul_of_pos_left _ sizePos
    omega
  have first : Turn heap.blocks s buf (al, elemsLayout s.elem s.len) elems s (whole buf s.elem s.len) given.blocks := by
    have here : Turn heap.blocks s buf (al, elemsLayout s.elem s.len) elems s (whole buf s.elem s.len)
        (Function.update (place heap.blocks s elems) buf
          (some ⟨(al, elemsLayout s.elem s.len), List.replicate elems.length none⟩)) :=
      Turn.here _ List.length_replicate
    rwa [holds.place_same, ← put] at here
  rcases (first.spans holds away rfl).2.1 with ⟨cells, laid, _⟩
  rw [ends_bind, ends_assertSpan laid.asserts, ends_bind]
  refine ends_loop (fun rounds (vars : Passing C) mid => exists now e,
    Turn heap.blocks s buf (al, elemsLayout s.elem s.len) now vars.src vars.dst mid.blocks ∧
      now.length = elems.length ∧ vars.width = 2 ^ e ∧ inv e now vars.ctx ∧ rounds = s.len - vars.width) ?_
    (n := s.len - 1) ⟨elems, 0, first, rfl, rfl, start, rfl⟩ (by omega)
  rintro rounds ⟨width, src, dst, ctx⟩ mid ⟨now, e, turn, length, rfl, kept, rfl⟩
  dsimp only at turn kept ⊢
  rw [ends_ite]
  constructor
  · intro more
    rcases turn.spans holds away length with ⟨holdsSrc, ⟨cells, laid, room⟩, sameElem, apart⟩
    have narrow : e < 63 := (Nat.pow_lt_pow_iff_right Nat.one_lt_two).mp (by unfold sizeRange at half; omega)
    have wide : 2 * 2 ^ e ≤ 2 ^ 63 := by
      rw [← Nat.pow_succ']
      exact Nat.pow_le_pow_right Nat.two_pos narrow
    have small : now.length + 2 * 2 ^ e ≤ sizeRange := by
      unfold sizeRange at half ⊢
      omega
    have double : wrapMul (2 ^ e) 2 = 2 ^ e * 2 := wrapMul_eq (by unfold sizeRange; omega)
    rw [ends_bind]
    apply ends_mergePass holdsSrc laid sameElem room apart (Nat.two_pow_pos e) small (len.symm.trans length.symm)
    intro later merged
    have lengthNext : (mergeRuns (rightGoesFirst cmp) (2 ^ e) now ctx).1.length = elems.length :=
      (mergeRuns_perm (Nat.two_pow_pos e)).length_eq.trans length
    rw [ends_pure, double]
    refine ⟨s.len - 2 ^ (e + 1), ?_, _, e + 1, ?_, lengthNext, (Nat.pow_succ 2 e).symm,
      step e now ctx (len ▸ more) length kept, ?_⟩
    · have positive := Nat.two_pow_pos e
      rw [Nat.pow_succ]
      omega
    · rw [merged]
      exact turn.pass holds away length lengthNext
    · rw [Nat.pow_succ]
  · intro wide
    rw [ends_pure]
    refine turn.ends_last holds away free length real sized rfl fun later back => ?_
    exact done (Or.inr grants) e now ctx later (by omega) length kept back

/-- Where the buffer is granted the span is sorted stably, and where it is refused nothing is changed. -/
theorem ends_sortStable {al : Al} (holds : Holds heap.blocks s elems) (real : al.isSome = true)
    (fits : heap.Grants -> 2 * (s.elem.size * s.len) ≤ sizeRange) {post : Status × C -> SpanMem α -> Prop}
    (refused : 2 ≤ elems.length -> ¬ heap.Grants -> heap.Spared (post (.errNoMem, ctx)))
    (done : elems.length < 2 ∨ heap.Grants -> forall now ctx (later : SpanMem α), Sorts cmp elems now ->
      later.blocks = place heap.blocks s now -> post (.ok, ctx) later) :
    Ends (sortStable s cmp ctx al) heap post := by
  apply ends_sortStable_passes holds real fits (fun e now _ => Chunks (Sorts cmp) (2 ^ e) elems now)
  · exact Chunks.one fun row few => Sorts.of_short few
  · intro e now ctx _ _ chunks
    rw [Nat.pow_succ']
    exact chunks.merged (Nat.two_pow_pos e) fun _ _ _ _ _ first second => first.merge second
  · exact refused
  · intro served e now ctx later wide length chunks back
    exact done served now ctx later (chunks.whole length wide) back

end Span
end TerseDsa
