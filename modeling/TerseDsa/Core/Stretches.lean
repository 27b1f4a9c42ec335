import TerseDsa.Core.Spans
import TerseDsa.Foundation.Rearranging

namespace TerseDsa

open Foundation Run

/-!
# Spans of which a stretch is set

From `lo` on and before `hi` the span shows elems, and whatever is in the other
slots, they may be unset.  An operation that ends on such a span has read none
of the others, as reading an unset slot goes wrong.
-/

namespace Span

variable {α : Type} {heap : SpanMem α} {span : Span} {blocks : Blocks AlTag (List (Option α))}
  {elems now next : List α} {cells : List (Option α)} {lo hi lo' hi' idx i j : Nat}

/-- The slots, with those of the stretch set to elems. -/
def patched (lo hi : Nat) (cells : List (Option α)) (elems : List α) : List (Option α) :=
  cells.mapIdx fun idx cell => if lo ≤ idx ∧ idx < hi then elems[idx]? else cell

/-- The span shows the elems in the stretch; what `elems` has elsewhere is not in memory. -/
structure HoldsIn (blocks : Blocks AlTag (List (Option α))) (span : Span) (lo hi : Nat) (cells : List (Option α))
    (elems : List α) : Prop where
  covers : Over blocks span cells
  length : elems.length = cells.length
  upTo : hi ≤ elems.length
  shown : patched lo hi cells elems = cells

/-- The memory with other elems in the stretch. -/
def placeIn (blocks : Blocks AlTag (List (Option α))) (span : Span) (lo hi : Nat) (cells : List (Option α))
    (elems : List α) : Blocks AlTag (List (Option α)) :=
  Slice.fill blocks span.toSlice (patched lo hi cells elems)

/-! ## Slots -/

theorem length_patched : (patched lo hi cells elems).length = cells.length := List.length_mapIdx

theorem getElem?_patched (i : Nat) :
    (patched lo hi cells elems)[i]? = (cells[i]?).map fun cell => if lo ≤ i ∧ i < hi then elems[i]? else cell := by
  rw [patched, List.getElem?_mapIdx]

/-- A stretch inside another one is set anew. -/
theorem patched_patched (from_ : lo ≤ lo') (upTo : hi' ≤ hi)
    (outside : forall idx, lo ≤ idx -> idx < hi -> idx < lo' ∨ hi' ≤ idx -> now[idx]? = elems[idx]?) :
    patched lo' hi' (patched lo hi cells elems) now = patched lo hi cells now := by
  apply List.ext_getElem?
  intro i
  rw [getElem?_patched, getElem?_patched, getElem?_patched, Option.map_map]
  cases cells[i]? with
  | none => rfl
  | some cell =>
      simp only [Option.map_some, Function.comp_apply]
      by_cases inner : lo' ≤ i ∧ i < hi'
      · rw [if_pos inner, if_pos ⟨by omega, by omega⟩]
      · rw [if_neg inner]
        by_cases outer : lo ≤ i ∧ i < hi
        · rw [if_pos outer, if_pos outer, outside i outer.1 outer.2 (by omega)]
        · rw [if_neg outer, if_neg outer]

theorem patched_set {val : α} (from_ : lo ≤ i) (upTo : i < hi) (length : elems.length = cells.length) :
    (patched lo hi cells elems).set i (some val) = patched lo hi cells (elems.set i val) := by
  apply List.ext_getElem?
  intro j
  rw [List.getElem?_set, getElem?_patched, getElem?_patched, length_patched, List.getElem?_set]
  by_cases here : i = j
  · subst here
    rw [if_pos rfl, if_pos rfl, length]
    rcases Nat.lt_or_ge i cells.length with inside | beyond
    · rw [if_pos inside, List.getElem?_eq_getElem inside, if_pos inside, Option.map_some, if_pos ⟨from_, upTo⟩]
    · rw [if_neg (Nat.not_lt.mpr beyond), List.getElem?_eq_none beyond, Option.map_none]
  · rw [if_neg here, if_neg here]

/-- A row that shows all of its slots. -/
theorem patched_map (length : now.length = elems.length)
    (outside : forall idx, idx < lo ∨ hi ≤ idx -> now[idx]? = elems[idx]?) :
    patched lo hi (elems.map some) now = now.map some := by
  apply List.ext_getElem?
  intro i
  rw [getElem?_patched, List.getElem?_map, List.getElem?_map, Option.map_map]
  rcases Nat.lt_or_ge i elems.length with inside | beyond
  · rw [List.getElem?_eq_getElem inside, List.getElem?_eq_getElem (by omega : i < now.length)]
    simp only [Option.map_some, Function.comp_apply, Option.some_inj]
    by_cases inner : lo ≤ i ∧ i < hi
    · rw [if_pos inner]
    · rw [if_neg inner, ← List.getElem?_eq_getElem inside, ← outside i (by omega), List.getElem?_eq_getElem (by omega)]
  · rw [List.getElem?_eq_none beyond, List.getElem?_eq_none (by omega)]
    rfl

/-- The slots around those of a stretch. -/
theorem patched_append {front back : List (Option α)} {left right mid : List α} (start : front.length = left.length)
    (at_ : lo = left.length) (length : next.length = mid.length) (end_ : hi = left.length + mid.length) :
    patched lo hi (front ++ mid.map some ++ back) (left ++ next ++ right) = front ++ next.map some ++ back := by
  apply List.ext_getElem?
  intro i
  rw [getElem?_patched, getElem?_around, getElem?_around, getElem?_around, List.length_map, List.length_map, start, length]
  by_cases before : i < left.length
  · have outside : ¬ (lo ≤ i ∧ i < hi) := by omega
    simp only [if_pos before, if_neg outside]
    exact Option.map_id_apply
  · simp only [if_neg before]
    by_cases within : i < left.length + mid.length
    · simp only [if_pos within]
      have here : i - left.length < mid.length := by omega
      have there : i - left.length < next.length := by omega
      simp only [(by omega : lo ≤ i ∧ i < hi), and_self, if_true, List.getElem?_map, List.getElem?_eq_getElem here,
        List.getElem?_eq_getElem there, Option.map_some]
    · have outside : ¬ (lo ≤ i ∧ i < hi) := by omega
      simp only [if_neg within, if_neg outside]
      exact Option.map_id_apply

namespace HoldsIn

variable (holdsIn : HoldsIn blocks span lo hi cells elems)

include holdsIn

theorem cell (from_ : lo ≤ i) (upTo : i < hi) (inside : i < elems.length) : cells[i]? = some (some elems[i]) := by
  have within : i < cells.length := holdsIn.length ▸ inside
  have at_ : (patched lo hi cells elems)[i]? = (cells[i]?).map fun cell => if lo ≤ i ∧ i < hi then elems[i]? else cell :=
    getElem?_patched i
  rw [holdsIn.shown, List.getElem?_eq_getElem within, Option.map_some, if_pos ⟨from_, upTo⟩,
    List.getElem?_eq_getElem inside, ← List.getElem?_eq_getElem within] at at_
  exact at_

theorem narrow (from_ : lo ≤ lo') (upTo : hi' ≤ hi) : HoldsIn blocks span lo' hi' cells elems := by
  refine ⟨holdsIn.covers, holdsIn.length, Nat.le_trans upTo holdsIn.upTo, ?_⟩
  have again : patched lo' hi' (patched lo hi cells elems) elems = patched lo hi cells elems :=
    patched_patched from_ upTo fun _ _ _ _ => rfl
  rwa [holdsIn.shown] at again

theorem placed (length : now.length = elems.length) :
    HoldsIn (placeIn blocks span lo hi cells now) span lo hi (patched lo hi cells now) now := by
  refine ⟨⟨holdsIn.covers.isType, holdsIn.covers.fits, holdsIn.covers.slots.filled length_patched⟩, ?_, length ▸ holdsIn.upTo, ?_⟩
  · rw [length_patched, length, holdsIn.length]
  · exact patched_patched (Nat.le_refl lo) (Nat.le_refl hi) fun _ _ _ _ => rfl

theorem placeIn_same : placeIn blocks span lo hi cells elems = blocks := by
  rw [placeIn, holdsIn.shown]
  exact holdsIn.covers.slots.fill_same

theorem part {left mid right : List α} (split : elems = left ++ mid ++ right) (at_ : lo = left.length)
    (end_ : hi = left.length + mid.length) :
    Holds blocks (span.part lo (hi - lo)) mid ∧ forall next : List α, next.length = mid.length ->
      place blocks (span.part lo (hi - lo)) next = placeIn blocks span lo hi cells (left ++ next ++ right) := by
  have total := holdsIn.length
  have size : left.length + mid.length + right.length = elems.length := by
    rw [split, List.length_append, List.length_append]
  have lengthFront : (cells.take lo).length = left.length := by
    rw [List.length_take]
    omega
  have middle : (cells.drop lo).take (mid.map some).length = mid.map some := by
    apply List.ext_getElem?
    intro i
    rw [List.length_map]
    rcases Nat.lt_or_ge i mid.length with inside | beyond
    · have within : lo + i < elems.length := by omega
      have found : elems[lo + i] = mid[i] := by
        simp only [split, at_, List.append_assoc, List.getElem_append_right (Nat.le_add_right _ _), Nat.add_sub_cancel_left,
          List.getElem_append_left inside]
      rw [List.getElem?_take_of_lt inside, List.getElem?_drop, holdsIn.cell (Nat.le_add_right _ _) (by omega) within,
        List.getElem?_map, List.getElem?_eq_getElem inside, found]
      rfl
    · rw [List.getElem?_eq_none (by rw [List.length_take]; omega), List.getElem?_eq_none (by rw [List.length_map]; exact beyond)]
  have slots := Slice.Shows.cut middle
  have laid := holdsIn.covers.slots
  rw [slots] at laid
  have few : hi - lo ≤ span.len := by
    have len := holdsIn.covers.length
    omega
  have count : (mid.map some).length = hi - lo := by
    rw [List.length_map]
    omega
  have lengthLo : (cells.take lo).length = lo := by omega
  have shown := laid.part
  rw [lengthLo, count] at shown
  refine ⟨⟨holdsIn.covers.isType, Nat.lt_of_le_of_lt (Nat.mul_le_mul_left _ few) holdsIn.covers.fits, shown⟩, ?_⟩
  intro next length
  have filled := laid.fill_part (by rw [List.length_map, List.length_map, length] : (next.map some).length = _)
  rw [place, placeIn, slots, patched_append lengthFront at_ length end_, ← filled, lengthLo, count]
  rfl

/-- A stretch inside the one that was set. -/
theorem placeIn_placeIn (from_ : lo ≤ lo') (upTo : hi' ≤ hi)
    (outside : forall idx, lo ≤ idx -> idx < hi -> idx < lo' ∨ hi' ≤ idx -> next[idx]? = now[idx]?) :
    placeIn (placeIn blocks span lo hi cells now) span lo' hi' (patched lo hi cells now) next =
      placeIn blocks span lo hi cells next := by
  rw [placeIn, placeIn, placeIn, holdsIn.covers.slots.fill_fill length_patched (length_patched.trans length_patched),
    patched_patched from_ upTo outside]

end HoldsIn

/-- A span that shows elems shows those of a stretch. -/
theorem Holds.holdsIn (holds : Holds blocks span elems) (upTo : hi ≤ elems.length) :
    HoldsIn blocks span lo hi (elems.map some) elems :=
  ⟨holds, (List.length_map some).symm, upTo, patched_map rfl fun _ _ => rfl⟩

theorem placeIn_map (length : now.length = elems.length)
    (outside : forall idx, idx < lo ∨ hi ≤ idx -> now[idx]? = elems[idx]?) :
    placeIn blocks span lo hi (elems.map some) now = place blocks span now := by
  rw [placeIn, patched_map length outside, place]

/-! ## Rules -/

section Rules

variable (holdsIn : HoldsIn heap.blocks span lo hi cells elems)

include holdsIn

theorem ends_getIn (from_ : lo ≤ idx) (upTo : idx < hi) (inside : idx < elems.length) {post : α -> SpanMem α -> Prop} :
    Ends (get span idx) heap post <-> post elems[idx] heap := by
  have at_ := holdsIn.cell from_ upTo inside
  rcases List.getElem?_eq_some_iff.mp at_ with ⟨within, here⟩
  have below : idx < span.len := holdsIn.covers.length ▸ within
  simp only [get, ends_bind, ends_assertSpan holdsIn.covers.asserts, ends_require, below, true_and,
    Slice.ends_read holdsIn.covers.slots within, here, ends_demand_some]

theorem ends_setSlotIn {val : α} (from_ : lo ≤ idx) (upTo : idx < hi) {post : Unit -> SpanMem α -> Prop}
    (done : forall later : SpanMem α, later.blocks = placeIn heap.blocks span lo hi cells (elems.set idx val) ->
      post () later) :
    Ends (Slice.write span.toSlice idx (some val)) heap post := by
  have reach := holdsIn.upTo
  apply Slice.ends_write holdsIn.covers.slots (by rw [← holdsIn.length]; omega)
  intro later same
  apply done later
  rw [same, placeIn, ← patched_set from_ upTo holdsIn.length, holdsIn.shown]

theorem ends_swapElemsIn (first : lo ≤ i ∧ i < hi) (second : lo ≤ j ∧ j < hi) {post : Unit -> SpanMem α -> Prop}
    (done : forall later : SpanMem α,
      later.blocks = placeIn heap.blocks span lo hi cells (exchanged elems i j) -> post () later) :
    Ends (swapElems α span i j) heap post := by
  have reach := holdsIn.upTo
  have insideI : i < elems.length := by omega
  have insideJ : j < elems.length := by omega
  have total := holdsIn.length.trans holdsIn.covers.length
  have swapped : exchanged elems i j = (elems.set i elems[j]).set j elems[i] := by
    simp only [exchanged, List.getElem?_eq_getElem insideI, List.getElem?_eq_getElem insideJ]
  rw [swapped] at done
  simp only [swapElems, ends_bind, ends_assertSpan holdsIn.covers.asserts, ends_require,
    (by omega : i < span.len), (by omega : j < span.len), true_and]
  by_cases same : i = j
  · subst same
    simp only [if_true, ends_pure]
    apply done
    rw [List.set_set, List.set_getElem_self, holdsIn.placeIn_same]
  · simp only [if_neg same, ends_bind, ends_getIn holdsIn first.1 first.2 insideI,
      ends_getIn holdsIn second.1 second.2 insideJ]
    apply ends_setSlotIn holdsIn first.1 first.2
    intro mid put
    have now : HoldsIn mid.blocks span lo hi (patched lo hi cells (elems.set i elems[j])) (elems.set i elems[j]) := by
      rw [put]
      exact holdsIn.placed List.length_set
    apply ends_setSlotIn now second.1 second.2
    intro later putBack
    apply done
    rw [putBack, put, holdsIn.placeIn_placeIn (Nat.le_refl lo) (Nat.le_refl hi) (by omega)]

end Rules

end Span
end TerseDsa
