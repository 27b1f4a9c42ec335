import TerseDsa.Core.Spans
import TerseDsa.Foundation.Sift

namespace TerseDsa

open Foundation Run

/-!
# The filters of `algo/modify`, `algo/copy` and `algo/permute`

Elems are dropped where they are, those kept are copied elsewhere, or those
not kept are parked in scratch memory until they can follow those kept.  What
the predicate keeps is always what `sift` keeps.
-/

namespace Span

variable {α C : Type} {heap : SpanMem α} {s dst src : Span} {elems row : List α} {cells : List (Option α)}
  {pred : Pred α C} {ctx : C} {write idx : Nat} {val : α}

/-- `tda_emit_over`, of the elem of `dst` at `idx`. -/
def emitOver (α : Type) (dst : Span) (write : Nat) (idx : Nat) : Run (SpanMem α) Nat := do
  assertSpan dst
  require (write < dst.len)
  -- still in its slot while nothing before it has been dropped
  if write ≠ idx then
    let val ← get (α := α) dst idx
    Slice.write dst.toSlice write (some val)
  return write + 1

/-- `tda_span_remove_if`. -/
def removeIf (s : Span) (pred : Pred α C) (ctx : C) : Run (SpanMem α) (Nat × C) := do
  assertSpan s
  countUp (fun read vars => do
    let cur ← get s read
    let (drop, ctx) := pred cur vars.2
    if !drop then
      let write ← emitOver α s vars.1 read
      return (write, ctx)
    return (vars.1, ctx)) s.len 0 (0, ctx)

/-- `tda_span_copy`. -/
def copy (α : Type) (dst src : Span) : Run (SpanMem α) Unit := do
  assertSpan dst
  assertSpan src
  require (dst.elem = src.elem)
  require (dst.len = src.len)
  if dst.len = 0 ∨ (dst.data = src.data ∧ dst.start = src.start) then
    return ()
  let cells : List (Option α) ← Slice.readRun src.toSlice 0 src.len
  Slice.writeRun dst.toSlice 0 cells

/-- `tda_span_copy_if`. -/
def copyIf (dst src : Span) (pred : Pred α C) (ctx : C) : Run (SpanMem α) (Nat × C) := do
  assertSpan dst
  assertSpan src
  require (dst.elem = src.elem)
  require (¬ Overlap dst src)
  countUp (fun read vars => do
    let cur ← get src read
    let (keep, ctx) := pred cur vars.2
    if keep then
      let write ← emit α dst vars.1 src read
      return (write, ctx)
    return (vars.1, ctx)) src.len 0 (0, ctx)

/-- `tda_span_partition_stable`; `boundary` is what `out_boundary` points at. -/
def partitionStable (s : Span) (pred : Pred α C) (ctx : C) (al : Al) (boundary : Nat) :
    Run (SpanMem α) (Status × Nat × C) := do
  assertSpan s
  require (al.isSome = true)
  if s.len = 0 then
    return (.ok, 0, ctx)
  let bufLayout := elemsLayout s.elem s.len
  match ← alloc al bufLayout (List.replicate (bufLayout.size / s.elem.size) none) with
  | none => return (.errNoMem, boundary, ctx)
  | some buf => do
      let rejected := whole buf s.elem s.len
      assertSpan rejected
      let (kept, dropped, ctx) ← countUp (fun i vars => do
        let elem ← get s i
        let (keep, ctx) := pred elem vars.2.2
        if keep then
          -- kept never runs ahead of i, so this only overwrites elems already read
          let kept ← emitOver α s vars.1 i
          return (kept, vars.2.1, ctx)
        else
          let dropped ← emit α rejected vars.2.1 s i
          return (vars.1, dropped, ctx)) s.len 0 (0, 0, ctx)
      let behind ← sub s kept dropped
      let parked ← sub rejected 0 dropped
      copy α behind parked
      dealloc al (some buf) bufLayout
      return (.ok, kept, ctx)

/-! ## One elem -/

theorem ends_get_of (holds : Holds heap.blocks s row) (at_ : row[idx]? = some val) {post : α -> SpanMem α -> Prop} :
    Ends (get s idx) heap post <-> post val heap := by
  rcases List.getElem?_eq_some_iff.mp at_ with ⟨inside, same⟩
  rw [ends_get holds inside, same]

/-- An elem is written at or before its own slot. -/
theorem ends_emitOver (holds : Holds heap.blocks dst row) (at_ : row[idx]? = some val) (before : write ≤ idx)
    {post : Nat -> SpanMem α -> Prop}
    (done : forall later : SpanMem α, later.blocks = place heap.blocks dst (row.set write val) ->
      post (write + 1) later) :
    Ends (emitOver α dst write idx) heap post := by
  rcases List.getElem?_eq_some_iff.mp at_ with ⟨inside, same⟩
  have below : write < dst.len := by
    rw [← holds.length]
    omega
  simp only [emitOver, ends_bind, ends_assertSpan (Over.asserts holds), ends_require, below, true_and]
  by_cases inPlace : write = idx
  · have still : row.set idx val = row := by rw [← same, List.set_getElem_self]
    simp only [inPlace, ne_eq, not_true_eq_false, if_false, ends_pure]
    rw [inPlace, still, holds.place_same] at done
    exact done heap rfl
  · simp only [ne_eq, inPlace, not_false_eq_true, if_true, ends_bind, ends_get_of holds at_]
    apply ends_setSlot holds (by omega)
    intro later put
    exact (ends_pure _ _ _).mpr (done later put)

/-! ## In place -/

/-- The elems that are not to be removed are in front, in their order. -/
theorem ends_removeIf (holds : Holds heap.blocks s elems) {post : Nat × C -> SpanMem α -> Prop}
    (done : forall (junk : List α) (later : SpanMem α),
      ((sift (negated pred) ctx elems).1 ++ junk).length = elems.length ->
      later.blocks = place heap.blocks s ((sift (negated pred) ctx elems).1 ++ junk) ->
      post ((sift (negated pred) ctx elems).1.length, (sift (negated pred) ctx elems).2) later) :
    Ends (removeIf s pred ctx) heap post := by
  have len := holds.length
  simp only [removeIf, ends_bind, ends_assertSpan (Over.asserts holds)]
  apply ends_countUp (fun i vars later =>
    exists row, later.blocks = place heap.blocks s row ∧ Compacting (negated pred) ctx elems i vars row)
    (show 0 + s.len = s.len by omega)
  · rintro i vars later _ below ⟨row, put, state⟩
    have inside : i < elems.length := by omega
    have now : Holds later.blocks s row := by
      rw [put]
      exact holds.placed state.length
    simp only [ends_bind, ends_get_of now (state.unread inside)]
    cases answer : (pred elems[i] vars.2).1 with
    | true =>
        have no : (negated pred elems[i] vars.2).1 = false := by rw [negated, answer, Bool.not_true]
        simp only [Bool.not_true, Bool.false_eq_true, if_false, ends_pure]
        exact ⟨row, put, state.dropped inside no⟩
    | false =>
        have yes : (negated pred elems[i] vars.2).1 = true := by rw [negated, answer, Bool.not_false]
        simp only [Bool.not_false, if_true, ends_bind]
        apply ends_emitOver now (state.unread inside) state.count_le
        intro last set_
        rw [put, holds.place_place state.length (by rw [List.length_set, state.length])] at set_
        exact (ends_pure _ _ _).mpr ⟨_, set_, state.kept inside yes⟩
  · rintro ⟨write, left⟩ later ⟨row, put, state⟩
    have size := state.length
    rcases state.ended len.symm with ⟨same, junk, split, _⟩
    subst split
    rw [same]
    exact done junk later size put
  · exact ⟨elems, holds.place_same.symm, Compacting.start⟩

/-! ## Elsewhere -/

/-- The elems that are kept are in front of `dst`, in their order. -/
theorem ends_copyIf (laid : Over heap.blocks dst cells) (holds : Holds heap.blocks src elems)
    (sameElem : dst.elem = src.elem) (apart : ¬ Overlap dst src)
    (room : (sift pred ctx elems).1.length ≤ cells.length) {post : Nat × C -> SpanMem α -> Prop}
    (done : forall later : SpanMem α,
      later.blocks = Slice.fill heap.blocks dst.toSlice (written (sift pred ctx elems).1 cells) ->
      post ((sift pred ctx elems).1.length, (sift pred ctx elems).2) later) :
    Ends (copyIf dst src pred ctx) heap post := by
  have len := holds.length
  have away := apart_of_not_overlap apart
  simp only [copyIf, ends_bind, ends_assertSpan laid.asserts, ends_assertSpan (Over.asserts holds),
    ends_require, sameElem, apart, not_false_eq_true, true_and]
  apply ends_countUp (fun i vars later =>
    vars = ((sift pred ctx (elems.take i)).1.length, (sift pred ctx (elems.take i)).2) ∧
      later.blocks = Slice.fill heap.blocks dst.toSlice (written (sift pred ctx (elems.take i)).1 cells))
    (show 0 + src.len = src.len by omega)
  · rintro i vars later _ below ⟨rfl, put⟩
    have inside : i < elems.length := by omega
    have next := sift_take_succ pred ctx inside
    have fits := (sift_take_le pred ctx elems i).trans room
    have fitsNext := (sift_take_le pred ctx elems (i + 1)).trans room
    have nowHolds : Holds later.blocks src elems := laid.besideWritten holds put fits away
    simp only [ends_bind, ends_get nowHolds inside]
    cases answer : (pred elems[i] (sift pred ctx (elems.take i)).2).1 with
    | true =>
        rw [answer, if_pos rfl] at next
        have nowOver : Over later.blocks dst (written (sift pred ctx (elems.take i)).1 cells) :=
          laid.asWritten put fits
        rw [next, List.length_append, List.length_singleton] at fitsNext
        simp only [if_true, ends_bind]
        apply ends_emitWritten nowOver nowHolds fitsNext inside away
        intro last set_
        rw [put, laid.slots.fill_fill (length_written fits)
          (length_written (by rw [List.length_append, List.length_singleton]; exact fitsNext))] at set_
        simp only [ends_pure, next, List.length_append, List.length_singleton]
        exact ⟨trivial, set_⟩
    | false =>
        rw [answer, if_neg Bool.false_ne_true, List.append_nil] at next
        simp only [Bool.false_eq_true, if_false, ends_pure, next]
        exact ⟨trivial, put⟩
  · rintro vars later ⟨rfl, put⟩
    rw [List.take_of_length_le (by omega)] at put ⊢
    exact done later put
  · exact ⟨rfl, laid.slots.fill_same.symm⟩

/-! ## With scratch memory -/

/-- Whether the spans overlap or not. -/
theorem ends_copy (laid : Over heap.blocks dst cells) (holds : Holds heap.blocks src elems)
    (sameElem : dst.elem = src.elem) (sameLen : dst.len = src.len) {post : Unit -> SpanMem α -> Prop}
    (done : forall later : SpanMem α, later.blocks = Slice.fill heap.blocks dst.toSlice (elems.map some) ->
      post () later) :
    Ends (copy α dst src) heap post := by
  have size : (elems.map some).length = cells.length := by
    rw [Over.length holds, laid.length, sameLen]
  simp only [copy, ends_bind, ends_assertSpan laid.asserts, ends_assertSpan (Over.asserts holds),
    ends_require, sameElem, true_and]
  refine ⟨sameLen, ?_⟩
  by_cases nothing : dst.len = 0
  · have none_ : cells = [] := List.eq_nil_of_length_eq_zero (laid.length.trans nothing)
    rw [none_] at size
    simp only [nothing, true_or, if_true, ends_pure]
    apply done
    rw [List.eq_nil_of_length_eq_zero size, ← none_, laid.slots.fill_same]
  by_cases same : dst.data = src.data ∧ dst.start = src.start
  · have slices : dst.toSlice = src.toSlice := by
      cases dst with
      | mk dstSlice _ =>
          cases src with
          | mk srcSlice _ =>
              cases dstSlice
              cases srcSlice
              dsimp only at same sameLen ⊢
              rw [same.1, same.2, sameLen]
    rw [if_pos (Or.inr same), ends_pure]
    apply done
    rw [slices, holds.slots.fill_same]
  · have some_ : elems.map some ≠ [] := by
      intro empty
      rw [empty, List.length_nil] at size
      exact nothing (laid.length ▸ size.symm)
    have shown : Slice.Shows heap.blocks src.toSlice ([] ++ elems.map some ++ []) := by
      rw [List.nil_append, List.append_nil]
      exact holds.slots
    have room : Slice.Shows heap.blocks dst.toSlice ([] ++ cells ++ []) := by
      rw [List.nil_append, List.append_nil]
      exact laid.slots
    have whole : [] ++ elems.map some ++ [] ≠ [] := by rwa [List.nil_append, List.append_nil]
    have wholeRoom : [] ++ cells ++ [] ≠ [] := by
      rw [List.nil_append, List.append_nil]
      rintro rfl
      exact some_ (List.eq_nil_of_length_eq_zero size)
    have start : 0 = ([] : List (Option α)).length := rfl
    simp only [nothing, same, or_self, if_false, ends_bind]
    rw [← Over.length holds, start, Slice.ends_readRun shown whole]
    apply Slice.ends_writeRun room size wholeRoom
    intro later put
    rw [List.nil_append, List.append_nil] at put
    exact done later put

section Partition

variable {buf : Addr} {tag : AlTag} {i : Nat} {vars : Nat × Nat × C} {blocks : Blocks AlTag (List (Option α))}

/-- The elems before `i` were asked about: those kept are in front of the span, the
others in front of the scratch block. -/
structure Parting (blocks : Blocks AlTag (List (Option α))) (s : Span) (buf : Addr) (tag : AlTag) (pred : Pred α C)
    (ctx : C) (elems : List α) (i : Nat) (vars : Nat × Nat × C) (later : Blocks AlTag (List (Option α))) :
    Prop where
  rows : exists row, Compacting pred ctx elems i (vars.1, vars.2.2) row ∧
    later = Function.update (place blocks s row) buf
      (some ⟨tag, written (sift (negated pred) ctx (elems.take i)).1 (List.replicate elems.length none)⟩)
  dropped : vars.2.1 = (sift (negated pred) ctx (elems.take i)).1.length

/-- There is room for what is not kept. -/
theorem dropped_le (pred : Pred α C) (ctx : C) (elems : List α) (i : Nat) :
    (sift (negated pred) ctx (elems.take i)).1.length ≤
      (List.replicate elems.length (none : Option α)).length := by
  rw [List.length_replicate]
  exact sift_sublist.length_le.trans (List.take_sublist _ _).length_le

theorem Parting.step (holds : Holds blocks s elems) (away : s.data ≠ some buf) (inside : i < elems.length)
    (state : Parting blocks s buf tag pred ctx elems i vars heap.blocks) :
    Ends (do
      let elem ← get s i
      let (keep, ctx) := pred elem vars.2.2
      if keep then
        let kept ← emitOver α s vars.1 i
        return (kept, vars.2.1, ctx)
      else
        let dropped ← emit α (whole buf s.elem s.len) vars.2.1 s i
        return (vars.1, dropped, ctx)) heap
      fun next later => Parting blocks s buf tag pred ctx elems (i + 1) next later.blocks := by
  rcases vars with ⟨kept, dropped, now⟩
  rcases state with ⟨⟨row, state, put⟩, count⟩
  dsimp only at state count ⊢
  have length := state.length
  have placed : Holds heap.blocks s row := by
    rw [put]
    exact (holds.placed length).beside_block away
  have left := state.left
  dsimp only at left
  have asked := sift_take_succ (negated pred) ctx inside
  rw [sift_negated, ← left] at asked
  simp only [ends_bind, ends_get_of placed (state.unread inside)]
  cases answer : (pred elems[i] now).1 with
  | true =>
      simp only [negated, answer, Bool.not_true, Bool.false_eq_true, if_false, List.append_nil] at asked
      simp only [if_true, ends_bind]
      apply ends_emitOver placed (state.unread inside) state.count_le
      intro later set_
      simp only [ends_pure]
      refine ⟨⟨_, state.kept inside answer, ?_⟩, ?_⟩
      · rw [set_, put, place, Slice.fill_update away]
        rw [asked]
        congr 1
        exact holds.place_place length (by rw [List.length_set, length])
      · rw [asked]
        exact count
  | false =>
      simp only [negated, answer, Bool.not_false, if_true] at asked
      subst count
      have fits := dropped_le pred ctx elems i
      have fitsNext := dropped_le pred ctx elems (i + 1)
      rw [asked, List.length_append, List.length_singleton] at fitsNext
      have laid : Over heap.blocks (whole buf s.elem s.len)
          (written (sift (negated pred) ctx (elems.take i)).1 (List.replicate elems.length none)) := by
        rw [put]
        apply over_block holds.isType holds.fits
        rw [length_written fits, List.length_replicate, holds.length]
      simp only [Bool.false_eq_true, if_false, ends_bind]
      apply ends_emitWritten laid placed fitsNext (length ▸ inside) fun same => absurd same.symm away
      intro later set_
      simp only [ends_pure]
      refine ⟨⟨row, state.dropped inside answer, ?_⟩, ?_⟩
      · have unread := state.unread inside
        rw [List.getElem?_eq_getElem (length ▸ inside), Option.some_inj] at unread
        rw [set_, put, unread, asked, fill_block]
        rw [length_written fits, length_written]
        rwa [List.length_append, List.length_singleton]
      · rw [asked, List.length_append, List.length_singleton]

/-- Those not kept follow those kept, and the scratch block is given back. -/
theorem ends_partitionStable {al : Al} {boundary : Nat} (holds : Holds heap.blocks s elems) (real : al.isSome = true)
    {post : Status × Nat × C -> SpanMem α -> Prop}
    (refused : elems ≠ [] -> ¬ heap.Grants -> heap.Spared (post (.errNoMem, boundary, ctx)))
    (done : elems = [] ∨ heap.Grants -> forall later : SpanMem α,
      later.blocks = place heap.blocks s ((sift pred ctx elems).1 ++ (sift (negated pred) ctx elems).1) ->
      post (.ok, (sift pred ctx elems).1.length, (sift pred ctx elems).2) later) :
    Ends (partitionStable s pred ctx al boundary) heap post := by
  have len := holds.length
  simp only [partitionStable, ends_bind, ends_assertSpan (Over.asserts holds), ends_require, real, true_and]
  by_cases nothing : s.len = 0
  · have none_ : elems = [] := List.eq_nil_of_length_eq_zero (len.trans nothing)
    subst none_
    rw [if_pos nothing, ends_pure]
    exact done (Or.inl rfl) heap holds.place_same.symm
  have some_ : elems ≠ [] := by
    rintro rfl
    exact nothing len.symm
  have sizePos : 0 < s.elem.size := Layout.size_pos holds.isType
  have bytes : (elemsLayout s.elem s.len).size = s.elem.size * s.len := Nat.mod_eq_of_lt holds.fits
  have slots : (elemsLayout s.elem s.len).size / s.elem.size = elems.length := by
    rw [bytes, Nat.mul_div_cancel_left _ sizePos, len]
  rw [if_neg nothing, ends_bind, slots]
  apply ends_alloc_answered real
  · intro later denied same
    have asked : 0 < (elemsLayout s.elem s.len).size := by
      rw [bytes]
      exact Nat.mul_pos sizePos (Nat.pos_of_ne_zero nothing)
    exact (ends_pure _ _ _).mpr (refused some_ (denied asked) later same)
  intro sized grants buf mid free put
  have away := holds.away free some_
  have start : Parting heap.blocks s buf (al, elemsLayout s.elem s.len) pred ctx elems 0 (0, 0, ctx) mid.blocks := by
    refine ⟨⟨elems, Compacting.start, ?_⟩, rfl⟩
    rw [put, holds.place_same]
    rfl
  have room : Over mid.blocks (whole buf s.elem s.len) (List.replicate elems.length none) := by
    rw [put]
    exact over_block holds.isType holds.fits (by rw [List.length_replicate, len])
  simp only [ends_assertSpan room.asserts, ends_bind]
  apply ends_countUp (fun i vars later =>
    Parting heap.blocks s buf (al, elemsLayout s.elem s.len) pred ctx elems i vars later.blocks)
    (show 0 + s.len = s.len by omega)
  · intro i vars later _ below state
    exact state.step holds away (by omega)
  · rintro ⟨kept, dropped, now⟩ later state
    rcases state with ⟨⟨row, state, now_⟩, count⟩
    have size := state.length
    rcases state.ended len.symm with ⟨same, junk, split, few⟩
    rw [List.take_of_length_le (by omega)] at count now_
    cases same
    dsimp only at count ⊢
    subst split count
    have fits : (sift (negated pred) ctx elems).1.length ≤ (List.replicate elems.length (none : Option α)).length := by
      rw [List.length_replicate, ← size, List.length_append]
      omega
    have shown : Holds later.blocks s ((sift pred ctx elems).1 ++ junk ++ []) := by
      rw [now_, List.append_nil]
      exact (holds.placed size).beside_block away
    have scratch : Over later.blocks (whole buf s.elem s.len)
        ([] ++ (sift (negated pred) ctx elems).1.map some ++
          (List.replicate elems.length (none : Option α)).drop (sift (negated pred) ctx elems).1.length) := by
      rw [now_]
      apply over_block holds.isType holds.fits
      exact (length_written fits).trans (by rw [List.length_replicate, len])
    have parked : Holds later.blocks ((whole buf s.elem s.len).part 0 (sift (negated pred) ctx elems).1.length)
        (sift (negated pred) ctx elems).1 := by
      have part_ := scratch.slots.part
      rw [List.length_map] at part_
      refine ⟨holds.isType, Nat.lt_of_le_of_lt (Nat.mul_le_mul_left _ ?_) holds.fits, part_⟩
      rw [List.length_replicate, len] at fits
      exact fits
    have inside : (sift pred ctx elems).1.length + (sift (negated pred) ctx elems).1.length ≤ s.len := by
      rw [← len, ← size, List.length_append, few]
    have insideScratch : 0 + (sift (negated pred) ctx elems).1.length ≤ (whole buf s.elem s.len).len := by
      change 0 + _ ≤ s.len
      omega
    simp only [ends_sub (Over.asserts shown) inside, ends_sub scratch.asserts insideScratch]
    have behind := shown.part
    rw [few] at behind
    apply ends_copy behind parked rfl rfl
    intro last copied
    have final : last.blocks = Function.update (place heap.blocks s
        ((sift pred ctx elems).1 ++ (sift (negated pred) ctx elems).1)) buf
        (some ⟨(al, elemsLayout s.elem s.len),
          written (sift (negated pred) ctx elems).1 (List.replicate elems.length none)⟩) := by
      have together : place later.blocks (s.part (sift pred ctx elems).1.length junk.length)
          (sift (negated pred) ctx elems).1 = _ := shown.place_part few.symm
      rw [List.append_nil, few] at together
      rw [copied]
      change place later.blocks (s.part _ _) _ = _
      rw [together, now_, place, Slice.fill_update away]
      congr 1
      exact holds.place_place size (by rw [← size, List.length_append, List.length_append, few])
    have live : last.blocks buf = some ⟨(al, elemsLayout s.elem s.len),
        written (sift (negated pred) ctx elems).1 (List.replicate elems.length none)⟩ := by
      rw [final, Function.update_self]
    rw [ends_dealloc_some real sized live, ends_pure]
    apply done (Or.inr grants)
    rw [Heap.put_blocks, final, Function.update_idem, Function.update_eq_self_iff, place, Slice.fill_elsewhere away,
      free]
  · exact start

end Partition

end Span
end TerseDsa
