import TerseDsa.Core.Spans
import TerseDsa.Foundation.Scanning
import TerseDsa.Foundation.Scans

namespace TerseDsa

open Foundation Run

/-!
# The scans of `algo/fold`

The destination is apart from the source or is the source itself.  The running
totals are written from the front and the steps from the back, so that what is
read next was not written over.
-/

/-- `tda_BinOp`, which reads both operands before it writes, with the state behind its `ctx`. -/
abbrev BinOp (α C : Type) := α -> α -> C -> α × C

/-- The callback writes what `f` gives, whatever its state. -/
def BinOp.Writes {α C : Type} (op : BinOp α C) (f : α -> α -> α) : Prop := forall lhs rhs ctx, (op lhs rhs ctx).1 = f lhs rhs

namespace Span

variable {α C : Type} {heap later : SpanMem α} {dst src span : Span} {elems : List α} {cells next : List (Option α)}
  {op : BinOp α C} {f : α -> α -> α} {ctx : C} {i k idx : Nat} {val : α} {blocks : Blocks AlTag (List (Option α))}

/-- `tda_span_apart_or_same`. -/
def ApartOrSame (a b : Span) : Prop := (a.data = b.data ∧ a.start = b.start) ∨ ¬ Overlap a b

instance (a b : Span) : Decidable (ApartOrSame a b) := inferInstanceAs (Decidable (_ ∨ _))

/-- `tda_span_set`. -/
def setElem (α : Type) (span : Span) (idx : Nat) (val : α) : Run (SpanMem α) Unit := do
  assertSpan span
  require (idx < span.len)
  Slice.write span.toSlice idx (some val)

/-- A callback writes where `tda_span_get_mut` points. -/
def setMut (α : Type) (span : Span) (idx : Nat) (val : α) : Run (SpanMem α) Unit := setElem α span idx val

/-- `tda_span_partial_sum`. -/
def partialSum (dst src : Span) (op : BinOp α C) (ctx : C) : Run (SpanMem α) C := do
  assertSpan dst
  assertSpan src
  require (dst.elem = src.elem)
  require (dst.len = src.len)
  require (ApartOrSame dst src)
  if src.len = 0 then
    return ctx
  -- in place this sets the first elem onto itself
  let first ← get src 0
  setElem α dst 0 first
  countUp (fun i ctx => do
    let lhs ← get dst (i - 1)
    let rhs ← get src i
    let (val, ctx) := op lhs rhs ctx
    setMut α dst i val
    return ctx) (src.len - 1) 1 ctx

/-- `tda_span_adjacent_difference`. -/
def adjacentDifference (dst src : Span) (op : BinOp α C) (ctx : C) : Run (SpanMem α) C := do
  assertSpan dst
  assertSpan src
  require (dst.elem = src.elem)
  require (dst.len = src.len)
  require (ApartOrSame dst src)
  if src.len = 0 then
    return ctx
  -- from the back, so in place step i reads src[i] and src[i - 1] before either is written
  let ctx ← countDown (fun before ctx => do
    let lhs ← get src (before + 1)
    let rhs ← get src before
    let (val, ctx) := op lhs rhs ctx
    setMut α dst (before + 1) val
    return ctx) (src.len - 1) ctx
  let first ← get src 0
  setElem α dst 0 first
  return ctx

/-! ## Slots -/

theorem ends_getCell (laid : Over heap.blocks span cells) (at_ : cells[idx]? = some (some val))
    {post : α -> SpanMem α -> Prop} : Ends (get span idx) heap post <-> post val heap := by
  rcases List.getElem?_eq_some_iff.mp at_ with ⟨inside, here⟩
  have below : idx < span.len := laid.length ▸ inside
  simp only [get, ends_bind, ends_assertSpan laid.asserts, ends_require, below, true_and,
    Slice.ends_read laid.slots inside, here, ends_demand_some]

theorem ends_setElem (laid : Over heap.blocks span cells) (inside : idx < cells.length) {post : Unit -> SpanMem α -> Prop}
    (done : forall later : SpanMem α,
      later.blocks = Slice.fill heap.blocks span.toSlice (cells.set idx (some val)) -> post () later) :
    Ends (setElem α span idx val) heap post := by
  have below : idx < span.len := laid.length ▸ inside
  simp only [setElem, ends_bind, ends_assertSpan laid.asserts, ends_require, below, true_and]
  exact Slice.ends_write laid.slots inside done

/-- The source of a scan into slots that hold `cells`: elems elsewhere, or those in the slots. -/
def Feeds (blocks : Blocks AlTag (List (Option α))) (dst src : Span) (cells : List (Option α)) (elems : List α) : Prop :=
  (¬ Overlap dst src ∧ Holds blocks src elems) ∨ (src = dst ∧ cells = elems.map some)

theorem Feeds.apartOrSame (feeds : Feeds blocks dst src cells elems) : ApartOrSame dst src := by
  rcases feeds with ⟨apart, _⟩ | ⟨rfl, _⟩
  · exact Or.inr apart
  · exact Or.inl ⟨rfl, rfl⟩

theorem Feeds.holds (laid : Over blocks dst cells) (feeds : Feeds blocks dst src cells elems) : Holds blocks src elems := by
  rcases feeds with ⟨_, shown⟩ | ⟨rfl, rfl⟩
  · exact shown
  · exact laid

/-- An elem of the source is read while its slot, if it is one of the destination, was not written. -/
theorem Feeds.ends_get (feeds : Feeds heap.blocks dst src cells elems) (laid : Over heap.blocks dst cells)
    (put : later.blocks = Slice.fill heap.blocks dst.toSlice next) (length : next.length = cells.length)
    (still : next[k]? = cells[k]?) (at_ : elems[k]? = some val) {post : α -> SpanMem α -> Prop} :
    Ends (get src k) later post <-> post val later := by
  rcases feeds with ⟨apart, shown⟩ | ⟨rfl, rfl⟩
  · have now : Holds later.blocks src elems := by
      rw [put]
      exact laid.beside shown length (apart_of_not_overlap apart)
    exact ends_getCell now (by rw [List.getElem?_map, at_]; rfl)
  · have now : Over later.blocks src next := by
      rw [put]
      exact laid.filled length
    exact ends_getCell now (by rw [still, List.getElem?_map, at_]; rfl)

/-! ## Slots written from either end -/

section Ends

variable {out : List α}

/-- The slots of which those from `i` on are written. -/
def writtenFrom (out : List α) (cells : List (Option α)) (i : Nat) : List (Option α) := cells.take i ++ (out.drop i).map some

theorem length_writtenFrom (same : out.length = cells.length) : (writtenFrom out cells i).length = cells.length := by
  rw [writtenFrom, List.length_append, List.length_take, List.length_map, List.length_drop]
  omega

theorem writtenFrom_before (before : k < i) (inside : i ≤ cells.length) : (writtenFrom out cells i)[k]? = cells[k]? := by
  rw [writtenFrom, List.getElem?_append_left (by rw [List.length_take]; omega), List.getElem?_take_of_lt before]

variable (inside : i < out.length)

include inside

theorem written_take_before {before : α} (earlier : k < i) (at_ : out[k]? = some before) :
    (written (out.take i) cells)[k]? = some (some before) := by
  rw [written, List.getElem?_append_left (by rw [List.length_map, List.length_take]; omega), List.getElem?_map,
    List.getElem?_take_of_lt earlier, at_]
  rfl

theorem written_take_from : (written (out.take i) cells)[i]? = cells[i]? := by
  have taken : (out.take i).length = i := by rw [List.length_take]; omega
  rw [written, List.getElem?_append_right (by rw [List.length_map]; omega), List.length_map, taken, Nat.sub_self,
    List.getElem?_drop, Nat.add_zero]

variable (fits : out.length ≤ cells.length)

include fits

theorem set_written_take : (written (out.take i) cells).set i (some out[i]) = written (out.take (i + 1)) cells := by
  have taken : (out.take i).length = i := by rw [List.length_take]; omega
  rw [List.take_succ_eq_append_getElem inside, ← set_written (by omega), taken]

theorem set_writtenFrom : (writtenFrom out cells (i + 1)).set i (some out[i]) = writtenFrom out cells i := by
  have split : cells.take (i + 1) = cells.take i ++ [cells[i]] := List.take_succ_eq_append_getElem (by omega)
  have taken : (cells.take i).length = i := by rw [List.length_take]; omega
  rw [writtenFrom, writtenFrom, split, List.append_assoc, List.set_append_right _ _ (by omega), taken, Nat.sub_self,
    List.drop_eq_getElem_cons inside]
  rfl

end Ends

/-! ## The passes -/

section Passes

variable (laid : Over heap.blocks dst cells) (feeds : Feeds heap.blocks dst src cells elems) (alike : dst.elem = src.elem)
  (size : cells.length = elems.length) (writes : op.Writes f)

include laid feeds alike size writes

/-- Before step `i` the slots in front hold the running fold of the elems there. -/
theorem ends_partialSum {post : C -> SpanMem α -> Prop}
    (done : forall (ctx : C) (later : SpanMem α),
      later.blocks = Slice.fill heap.blocks dst.toSlice ((running f elems).map some) -> post ctx later) :
    Ends (partialSum dst src op ctx) heap post := by
  have shown := feeds.holds laid
  have len := shown.length
  have lenDst := laid.length
  have total := length_running f elems
  have fits : (running f elems).length ≤ cells.length := by omega
  have sized : forall i, (written ((running f elems).take i) cells).length = cells.length :=
    fun i => length_written (by rw [List.length_take]; omega)
  simp only [partialSum, ends_bind, ends_assertSpan laid.asserts, ends_assertSpan (Over.asserts shown),
    ends_require, alike, show dst.len = src.len by omega, feeds.apartOrSame, true_and]
  by_cases nothing : src.len = 0
  · rw [if_pos nothing, ends_pure]
    apply done
    rw [List.eq_nil_of_length_eq_zero (show (running f elems).length = 0 by omega), List.map_nil,
      ← List.eq_nil_of_length_eq_zero (show cells.length = 0 by omega), laid.slots.fill_same]
  have first : 0 < elems.length := by omega
  have front : (running f elems)[0] = elems[0] := by
    have zeroth := running_zero f elems
    rwa [List.getElem?_eq_getElem first, List.getElem?_eq_getElem (total ▸ first), Option.some_inj] at zeroth
  simp only [if_neg nothing, ends_bind, ends_get shown first, ← front]
  apply ends_setElem laid (by omega)
  intro started put
  apply ends_countUp (fun i _ later =>
    later.blocks = Slice.fill heap.blocks dst.toSlice (written ((running f elems).take i) cells))
    (show 1 + (src.len - 1) = src.len by omega)
  · intro i now later low below put
    have inside : i < elems.length := by omega
    have within : i < (running f elems).length := by omega
    have current : Over later.blocks dst (written ((running f elems).take i) cells) := by
      rw [put]
      exact laid.filled (sized i)
    have previous : (running f elems)[i - 1]? = some (running f elems)[i - 1] := List.getElem?_eq_getElem (by omega)
    have here : elems[i]? = some elems[i] := List.getElem?_eq_getElem inside
    have result : (running f elems)[i] = f (running f elems)[i - 1] elems[i] := by
      have next := running_at (f := f) previous (show elems[i - 1 + 1]? = some elems[i] by rwa [Nat.sub_add_cancel low])
      rwa [Nat.sub_add_cancel low, List.getElem?_eq_getElem within, Option.some_inj] at next
    simp only [ends_bind, ends_getCell current (written_take_before within (by omega) previous),
      feeds.ends_get laid put (sized i) (written_take_from within) here, writes _ _ now, setMut]
    apply ends_setElem current (by rw [sized]; omega)
    intro last set_
    refine (ends_pure _ _ _).mpr ?_
    rw [set_, put, ← result, set_written_take within fits]
    exact laid.slots.fill_fill (sized i) (sized (i + 1))
  · intro now later put
    apply done now later
    rw [put, List.take_of_length_le (by omega), written, List.drop_of_length_le (by omega), List.append_nil]
  · rw [put]
    congr 1
    exact set_written_take (total ▸ first) fits

/-- When `i` steps are left the slots behind them hold the steps of the elems there. -/
theorem ends_adjacentDifference {post : C -> SpanMem α -> Prop}
    (done : forall (ctx : C) (later : SpanMem α),
      later.blocks = Slice.fill heap.blocks dst.toSlice ((steps f elems).map some) -> post ctx later) :
    Ends (adjacentDifference dst src op ctx) heap post := by
  have shown := feeds.holds laid
  have len := shown.length
  have lenDst := laid.length
  have total := length_steps f elems
  have same : (steps f elems).length = cells.length := by omega
  have sized : forall i, (writtenFrom (steps f elems) cells i).length = cells.length := fun i => length_writtenFrom same
  simp only [adjacentDifference, ends_bind, ends_assertSpan laid.asserts, ends_assertSpan (Over.asserts shown),
    ends_require, alike, show dst.len = src.len by omega, feeds.apartOrSame, true_and]
  by_cases nothing : src.len = 0
  · rw [if_pos nothing, ends_pure]
    apply done
    rw [List.eq_nil_of_length_eq_zero (show (steps f elems).length = 0 by omega), List.map_nil,
      ← List.eq_nil_of_length_eq_zero (show cells.length = 0 by omega), laid.slots.fill_same]
  have first : 0 < elems.length := by omega
  rw [if_neg nothing, ends_bind]
  apply ends_countDown (fun i _ later =>
    later.blocks = Slice.fill heap.blocks dst.toSlice (writtenFrom (steps f elems) cells (i + 1)))
  · intro i now later below put
    have inside : i + 1 < elems.length := by omega
    have current : Over later.blocks dst (writtenFrom (steps f elems) cells (i + 1 + 1)) := by
      rw [put]
      exact laid.filled (sized _)
    have here : elems[i + 1]? = some elems[i + 1] := List.getElem?_eq_getElem inside
    have before : elems[i]? = some elems[i] := List.getElem?_eq_getElem (by omega)
    have result : (steps f elems)[i + 1] = f elems[i + 1] elems[i] := by
      have next := steps_at (f := f) before here
      rwa [List.getElem?_eq_getElem (total ▸ inside), Option.some_inj] at next
    simp only [ends_bind,
      feeds.ends_get laid put (sized _) (writtenFrom_before (Nat.lt_succ_self (i + 1)) (by omega)) here,
      feeds.ends_get laid put (sized _) (writtenFrom_before (show i < i + 1 + 1 by omega) (by omega)) before,
      writes _ _ now, setMut]
    apply ends_setElem current (by rw [sized]; omega)
    intro last set_
    refine (ends_pure _ _ _).mpr ?_
    rw [set_, put, ← result, set_writtenFrom (total ▸ inside) (Nat.le_of_eq same)]
    exact laid.slots.fill_fill (sized _) (sized _)
  · intro now later put
    have current : Over later.blocks dst (writtenFrom (steps f elems) cells 1) := by
      rw [put]
      exact laid.filled (sized 1)
    have here : elems[0]? = some elems[0] := List.getElem?_eq_getElem first
    have front : (steps f elems)[0] = elems[0] := by
      have zeroth := steps_zero f elems
      rwa [here, List.getElem?_eq_getElem (total ▸ first), Option.some_inj] at zeroth
    simp only [ends_bind,
      feeds.ends_get laid put (sized 1) (writtenFrom_before Nat.zero_lt_one (by omega)) here]
    apply ends_setElem current (by rw [sized]; omega)
    intro last set_
    refine (ends_pure _ _ _).mpr (done now last ?_)
    rw [set_, put, ← front, set_writtenFrom (total ▸ first) (Nat.le_of_eq same)]
    exact laid.slots.fill_fill (sized 1) (sized 0)
  · rw [show src.len - 1 + 1 = cells.length by omega, writtenFrom, List.take_length, List.drop_of_length_le (by omega),
      List.map_nil, List.append_nil, laid.slots.fill_same]

end Passes

/-! ## In place and apart -/

/-- Slots that a scan of the source may write: others than its own, or its own. -/
structure Receives (blocks : Blocks AlTag (List (Option α))) (dst src : Span) (cells : List (Option α)) : Prop where
  laid : Over blocks dst cells
  alike : dst.elem = src.elem
  len : dst.len = src.len
  inPlaceOrApart : dst = src ∨ ¬ Overlap dst src

namespace Receives

variable {shown : List α} {D : Type} {undo : BinOp α D} {g : α -> α -> α} {dst' : Span} {ctx' : D}

theorem size (receives : Receives blocks dst src cells) (holds : Holds blocks src elems) : cells.length = elems.length := by
  rw [receives.laid.length, holds.length, receives.len]

theorem feeds (receives : Receives blocks dst src cells) (holds : Holds blocks src elems) :
    Feeds blocks dst src cells elems := by
  rcases receives.inPlaceOrApart with rfl | apart
  · exact Or.inr ⟨rfl, receives.laid.slots.unique holds.slots⟩
  · exact Or.inl ⟨apart, holds⟩

/-- A row of the same length is shown where it was put. -/
theorem filled (receives : Receives heap.blocks dst src cells) (holds : Holds heap.blocks src elems)
    (length : shown.length = elems.length) (put : later.blocks = Slice.fill heap.blocks dst.toSlice (shown.map some)) :
    Holds later.blocks dst shown := by
  rw [put]
  exact receives.laid.filled (by rw [List.length_map, length, receives.size holds])

theorem partialSums (receives : Receives heap.blocks dst src cells) (holds : Holds heap.blocks src elems)
    (writes : op.Writes f) :
    Ends (partialSum dst src op ctx) heap fun _ later =>
      later.blocks = Slice.fill heap.blocks dst.toSlice ((running f elems).map some) :=
  ends_partialSum receives.laid (receives.feeds holds) receives.alike (receives.size holds) writes fun _ _ put => put

theorem adjacentDifferences (receives : Receives heap.blocks dst src cells) (holds : Holds heap.blocks src elems)
    (writes : op.Writes f) :
    Ends (adjacentDifference dst src op ctx) heap fun _ later =>
      later.blocks = Slice.fill heap.blocks dst.toSlice ((steps f elems).map some) :=
  ends_adjacentDifference receives.laid (receives.feeds holds) receives.alike (receives.size holds) writes
    fun _ _ put => put

end Receives

/-- A row put into the slots of a span, and then what was there before. -/
theorem Holds.restored {shown : List α} {last : SpanMem α} (holds : Holds heap.blocks src elems)
    (length : shown.length = elems.length)
    (put : later.blocks = Slice.fill heap.blocks src.toSlice (shown.map some))
    (putBack : last.blocks = Slice.fill later.blocks src.toSlice (elems.map some)) : last.blocks = heap.blocks := by
  rw [putBack, put]
  exact (holds.place_place length rfl).trans holds.place_same

/-- The scans give the running fold and the steps in place as well as apart, and undo each other. -/
theorem Holds.scansUndone {D : Type} {undo : BinOp α D} {g : α -> α -> α} (holds : Holds heap.blocks src elems)
    (writes : op.Writes f) (writesBack : undo.Writes g) :
    ((running f elems).length = elems.length ∧ (running f elems)[0]? = elems[0]? ∧
      (forall i before x, (running f elems)[i]? = some before -> elems[i + 1]? = some x ->
        (running f elems)[i + 1]? = some (f before x)) ∧
      forall dst cells ctx, Receives heap.blocks dst src cells ->
        Ends (partialSum dst src op ctx) heap fun _ later =>
          later.blocks = Slice.fill heap.blocks dst.toSlice ((running f elems).map some)) ∧
    ((steps f elems).length = elems.length ∧ (steps f elems)[0]? = elems[0]? ∧
      (forall i before x, elems[i]? = some before -> elems[i + 1]? = some x ->
        (steps f elems)[i + 1]? = some (f x before)) ∧
      forall dst cells ctx, Receives heap.blocks dst src cells ->
        Ends (adjacentDifference dst src op ctx) heap fun _ later =>
          later.blocks = Slice.fill heap.blocks dst.toSlice ((steps f elems).map some)) ∧
    ((forall x y, g (f x y) x = y) -> forall dst cells ctx, Receives heap.blocks dst src cells ->
      Ends (partialSum dst src op ctx) heap fun _ later =>
        forall dst' cells' ctx', Receives later.blocks dst' dst cells' ->
          Ends (adjacentDifference dst' dst undo ctx') later fun _ last =>
            Holds last.blocks dst' elems ∧ (dst = src -> dst' = src -> last.blocks = heap.blocks)) ∧
    ((forall x y, f y (g x y) = x) -> forall dst cells ctx, Receives heap.blocks dst src cells ->
      Ends (adjacentDifference dst src undo ctx) heap fun _ later =>
        forall dst' cells' ctx', Receives later.blocks dst' dst cells' ->
          Ends (partialSum dst' dst op ctx') later fun _ last =>
            Holds last.blocks dst' elems ∧ (dst = src -> dst' = src -> last.blocks = heap.blocks)) := by
  refine ⟨⟨length_running f elems, running_zero f elems, fun _ _ _ here next => running_at here next,
    fun dst cells ctx receives => receives.partialSums holds writes⟩,
    ⟨length_steps f elems, steps_zero f elems, fun _ _ _ here next => steps_at here next,
    fun dst cells ctx receives => receives.adjacentDifferences holds writes⟩, ?_, ?_⟩
  · intro undoes dst cells ctx receives
    refine (receives.partialSums holds writes).mono ?_
    intro _ later put dst' cells' ctx' receives'
    have shown : Holds later.blocks dst (running f elems) := receives.filled holds (length_running f elems) put
    refine (receives'.adjacentDifferences shown writesBack).mono ?_
    intro _ last putBack
    rw [steps_running undoes] at putBack
    refine ⟨receives'.filled shown (length_running f elems).symm putBack, ?_⟩
    rintro rfl rfl
    exact holds.restored (length_running f elems) put putBack
  · intro undoes dst cells ctx receives
    refine (receives.adjacentDifferences holds writesBack).mono ?_
    intro _ later put dst' cells' ctx' receives'
    have shown : Holds later.blocks dst (steps g elems) := receives.filled holds (length_steps g elems) put
    refine (receives'.partialSums shown writes).mono ?_
    intro _ last putBack
    rw [running_steps undoes] at putBack
    refine ⟨receives'.filled shown (length_steps g elems).symm putBack, ?_⟩
    rintro rfl rfl
    exact holds.restored (length_steps g elems) put putBack

/-- A callback that adds. -/
def addNumbers : BinOp Int Unit := fun lhs rhs ctx => (lhs + rhs, ctx)

/-- A callback that subtracts. -/
def subtractNumbers : BinOp Int Unit := fun lhs rhs ctx => (lhs - rhs, ctx)

theorem scansUndone_row :
    Ends (partialSum (rowSpan 0 3) (rowSpan 0 3) addNumbers ()) (rowsMem [[4, 2, 5]]) fun _ later =>
      Ends (adjacentDifference (rowSpan 0 3) (rowSpan 0 3) subtractNumbers ()) later fun _ last =>
        last.blocks = (rowsMem [[4, 2, 5]]).blocks := by
  have row : Holds (rowsMem [[(4 : Int), 2, 5]]).blocks (rowSpan 0 3) [4, 2, 5] :=
    rowsMem_holds rfl (show [(4 : Int), 2, 5].length < sizeRange by decide)
  have inPlace : forall {blocks cells}, Over (α := Int) blocks (rowSpan 0 3) cells ->
      Receives blocks (rowSpan 0 3) (rowSpan 0 3) cells := fun laid => ⟨laid, rfl, rfl, Or.inl rfl⟩
  have undoes : forall x y : Int, x + y - x = y := fun _ _ => by omega
  have adds : BinOp.Writes addNumbers fun lhs rhs => lhs + rhs := fun _ _ _ => rfl
  have subtracts : BinOp.Writes subtractNumbers fun lhs rhs => lhs - rhs := fun _ _ _ => rfl
  have scans := row.scansUndone adds subtracts
  refine ((scans.1.2.2.2 _ _ () (inPlace row)).and (scans.2.2.1 undoes _ _ () (inPlace row))).mono ?_
  intro _ later both
  have shown : Holds later.blocks (rowSpan 0 3) [4, 6, 11] := (inPlace row).filled row rfl both.1
  exact (both.2 _ _ () (inPlace shown)).mono fun _ _ ended => ended.2 rfl rfl

end Span
end TerseDsa
