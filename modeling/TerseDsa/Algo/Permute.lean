import TerseDsa.Core.Spans
import TerseDsa.Foundation.Rearranging

namespace TerseDsa

open Foundation Run

/-!
# `algo/permute`

Reversing and rotating a span in place.
-/

namespace Span

variable {α : Type} {heap : SpanMem α} {span : Span} {elems left right : List α} {i j : Nat}

/-- `tda_span_reverse`. -/
def reverse (α : Type) (span : Span) : Run (SpanMem α) Unit := do
  assertSpan span
  if span.len < 2 then
    return ()
  loop (fun (ends : Nat × Nat) => do
    if ends.1 < ends.2 then
      swapElems α span ends.1 ends.2
      return .again (ends.1 + 1, ends.2 - 1)
    else
      return .leave ())
    span.len (0, span.len - 1)

/-- `tda_span_rotate`. -/
def rotate (α : Type) (span : Span) (mid : Nat) : Run (SpanMem α) Unit := do
  assertSpan span
  require (mid ≤ span.len)
  if mid = 0 ∨ mid = span.len then
    return ()
  let left ← sub span 0 mid
  reverse α left
  let right ← sub span mid (span.len - mid)
  reverse α right
  reverse α span

theorem getElem?_exchanged (first : i < elems.length) (second : j < elems.length) (k : Nat) :
    (exchanged elems i j)[k]? = if k = j then elems[i]? else if k = i then elems[j]? else elems[k]? := by
  simp only [exchanged, List.getElem?_eq_getElem first, List.getElem?_eq_getElem second]
  rw [List.getElem?_set, List.length_set, List.getElem?_set]
  by_cases atSecond : j = k
  · subst atSecond
    rw [if_pos rfl, if_pos second, if_pos rfl]
  · rw [if_neg atSecond, if_neg (Ne.symm atSecond)]
    by_cases atFirst : i = k
    · subst atFirst
      rw [if_pos rfl, if_pos first, if_pos rfl]
    · rw [if_neg atFirst, if_neg (Ne.symm atFirst)]

theorem exchanged_perm (i j : Nat) : (exchanged elems i j).Perm elems := by
  unfold exchanged
  by_cases inside : i < elems.length ∧ j < elems.length
  · rw [List.getElem?_eq_getElem inside.1, List.getElem?_eq_getElem inside.2]
    exact List.set_set_perm inside.1 inside.2
  · split
    · rename_i a b first second
      exact absurd ⟨(List.getElem?_eq_some_iff.mp first).1, (List.getElem?_eq_some_iff.mp second).1⟩ inside
    · exact List.Perm.refl _

theorem exchanged_comm (i j : Nat) : exchanged elems i j = exchanged elems j i := by
  unfold exchanged
  cases first : elems[i]? with
  | none => cases elems[j]? <;> rfl
  | some a =>
      cases second : elems[j]? with
      | none => rfl
      | some b =>
          by_cases same : i = j
          · subst same
            rw [first, Option.some_inj] at second
            rw [second]
          · exact List.set_comm _ _ same

theorem exchanged_append_right {i j : Nat} (first : i < left.length) (second : j < left.length) :
    exchanged (left ++ right) i j = exchanged left i j ++ right := by
  simp only [exchanged, List.getElem?_append_left first, List.getElem?_append_left second,
    List.getElem?_eq_getElem first, List.getElem?_eq_getElem second]
  rw [List.set_append_left _ _ first, List.set_append_left _ _ (by rwa [List.length_set])]

theorem exchanged_append_left {i j : Nat} (first : i < right.length) (second : j < right.length) :
    exchanged (left ++ right) (left.length + i) (left.length + j) = left ++ exchanged right i j := by
  have skip : forall k, (left ++ right)[left.length + k]? = right[k]? := by
    intro k
    rw [List.getElem?_append_right (Nat.le_add_right _ _), Nat.add_sub_cancel_left]
  simp only [exchanged, skip, List.getElem?_eq_getElem first, List.getElem?_eq_getElem second]
  rw [List.set_append_right _ _ (Nat.le_add_right _ _), Nat.add_sub_cancel_left,
    List.set_append_right _ _ (Nat.le_add_right _ _), Nat.add_sub_cancel_left]

theorem exchanged_two (left mid right : List α) (x y : α) :
    exchanged (left ++ x :: (mid ++ y :: right)) left.length (left.length + (mid.length + 1)) =
      left ++ y :: (mid ++ x :: right) := by
  have inner : exchanged (x :: (mid ++ y :: right)) 0 (mid.length + 1) = y :: (mid ++ x :: right) := by
    have second : (x :: (mid ++ y :: right))[mid.length + 1]? = some y := by
      rw [List.getElem?_cons_succ, List.getElem?_append_right (Nat.le_refl _), Nat.sub_self]
      rfl
    simp only [exchanged, second, List.getElem?_cons_zero, List.set_cons_zero, List.set_cons_succ]
    rw [List.set_append_right _ _ (Nat.le_refl _), Nat.sub_self, List.set_cons_zero]
  have outer : exchanged (left ++ x :: (mid ++ y :: right)) (left.length + 0) (left.length + (mid.length + 1)) =
      left ++ exchanged (x :: (mid ++ y :: right)) 0 (mid.length + 1) :=
    exchanged_append_left (Nat.succ_pos _) (by simp only [List.length_cons, List.length_append]; omega)
  rwa [inner] at outer

/-- Outside the two ends the elems are in each other's place already. -/
def Turned (elems now : List α) (done : Nat) : Prop :=
  now.length = elems.length ∧ forall k, k < elems.length ->
    now[k]? = if k < done ∨ elems.length ≤ k + done then elems[elems.length - 1 - k]? else elems[k]?

theorem Turned.step {now : List α} {done : Nat} (turned : Turned elems now done)
    (inside : 2 * done + 1 < elems.length) : Turned elems (exchanged now done (elems.length - 1 - done)) (done + 1) := by
  have ⟨length, at_⟩ := turned
  refine ⟨(length_exchanged _ _).trans length, fun k below => ?_⟩
  rw [getElem?_exchanged (by omega) (by omega)]
  by_cases last : k = elems.length - 1 - done
  · rw [if_pos last, at_ done (by omega), if_neg (by omega), if_pos (by omega)]
    congr 1
    omega
  · rw [if_neg last]
    by_cases first : k = done
    · rw [if_pos first, at_ _ (by omega), if_neg (by omega), if_pos (by omega), first]
    · rw [if_neg first, at_ k below]
      by_cases settled : k < done ∨ elems.length ≤ k + done
      · rw [if_pos settled, if_pos (by omega)]
      · rw [if_neg settled, if_neg (by omega)]

theorem Turned.reverse {now : List α} {done : Nat} (turned : Turned elems now done)
    (all : elems.length ≤ 2 * done + 1) : now = elems.reverse := by
  apply List.ext_getElem?
  intro k
  by_cases below : k < elems.length
  · rw [turned.2 k below, List.getElem?_reverse below]
    by_cases settled : k < done ∨ elems.length ≤ k + done
    · rw [if_pos settled]
    · rw [if_neg settled]
      congr 1
      omega
  · rw [List.getElem?_eq_none (by rw [turned.1]; omega), List.getElem?_eq_none (by rw [List.length_reverse]; omega)]

theorem ends_reverse (holds : Holds heap.blocks span elems) {post : Unit -> SpanMem α -> Prop}
    (done : forall later : SpanMem α, later.blocks = place heap.blocks span elems.reverse -> post () later) :
    Ends (reverse α span) heap post := by
  have length := holds.length
  simp only [reverse, ends_bind, ends_assertSpan (Over.asserts holds)]
  by_cases short : span.len < 2
  · rw [if_pos short, ends_pure]
    apply done
    have same : elems.reverse = elems := by
      rcases short_cases (by omega : elems.length < 2) with rfl | ⟨_, rfl⟩
      · rfl
      · rfl
    rw [same, holds.place_same]
  · rw [if_neg short]
    refine ends_loop (fun rounds (ends : Nat × Nat) mid => exists now,
      Turned elems now ends.1 ∧ mid.blocks = place heap.blocks span now ∧
        ends.1 + ends.2 + 1 = elems.length ∧ rounds = ends.2 - ends.1) ?_
      (n := span.len - 1) ⟨elems, ⟨rfl, fun k _ => by rw [if_neg (by omega)]⟩, holds.place_same.symm,
        by dsimp only; omega, by dsimp only; omega⟩ (by omega)
    rintro rounds ⟨lo, hi⟩ mid ⟨now, turned, same, sum, rfl⟩
    dsimp only at turned sum ⊢
    rw [ends_ite]
    constructor
    · intro apart
      have here : Holds mid.blocks span now := by
        rw [same]
        exact holds.placed turned.1
      rw [ends_bind]
      apply ends_swapElems here (by rw [turned.1]; omega) (by rw [turned.1]; omega)
      intro later swapped
      have other : hi = elems.length - 1 - lo := by omega
      rw [ends_pure]
      refine ⟨_, ?_, exchanged now lo hi, ?_, ?_, ?_, rfl⟩
      · dsimp only
        omega
      · rw [other]
        exact turned.step (by omega)
      · rw [swapped, same, holds.place_place turned.1 ((length_exchanged _ _).trans turned.1)]
      · dsimp only
        omega
    · intro met
      rw [ends_pure]
      apply done
      rw [same, turned.reverse (by omega)]

/-- The first `mid` elems go behind the others. -/
theorem ends_rotate (holds : Holds heap.blocks span (left ++ right)) {post : Unit -> SpanMem α -> Prop}
    (done : forall later : SpanMem α, later.blocks = place heap.blocks span (right ++ left) -> post () later) :
    Ends (rotate α span left.length) heap post := by
  have length := holds.length
  rw [List.length_append] at length
  have within : left.length ≤ span.len := by omega
  simp only [rotate, ends_bind, ends_assertSpan (Over.asserts holds), ends_require, within, true_and]
  by_cases whole : left.length = 0 ∨ left.length = span.len
  · rw [if_pos whole, ends_pure]
    apply done
    have same : right ++ left = left ++ right := by
      rcases whole with none_ | all
      · rw [List.eq_nil_of_length_eq_zero none_, List.append_nil, List.nil_append]
      · rw [List.eq_nil_of_length_eq_zero (by omega : right.length = 0), List.append_nil, List.nil_append]
    rw [same, holds.place_same]
  · have rest : span.len - left.length = right.length := by omega
    have front : Holds heap.blocks span ([] ++ left ++ right) := holds
    simp only [if_neg whole, ends_bind, rest, ends_sub (Over.asserts holds) (show 0 + left.length ≤ span.len by omega),
      ends_sub (Over.asserts holds) (show left.length + right.length ≤ span.len by omega)]
    apply ends_reverse front.part
    intro first turnedLeft
    rw [front.place_part List.length_reverse, List.nil_append] at turnedLeft
    have lengths : (left.reverse ++ right).length = (left ++ right).length := by
      rw [List.length_append, List.length_append, List.length_reverse]
    have back : Holds first.blocks span (left.reverse ++ right ++ []) := by
      rw [turnedLeft, List.append_nil]
      exact holds.placed lengths
    have backPart := back.part
    rw [List.length_reverse] at backPart
    apply ends_reverse backPart
    intro second turnedRight
    have placed := back.place_part (List.length_reverse : right.reverse.length = right.length)
    rw [List.length_reverse, List.append_nil] at placed
    have lengths' : (left.reverse ++ right.reverse).length = (left ++ right).length := by
      rw [List.length_append, List.length_append, List.length_reverse, List.length_reverse]
    rw [placed, turnedLeft, holds.place_place lengths lengths'] at turnedRight
    have both : Holds second.blocks span (left.reverse ++ right.reverse) := by
      rw [turnedRight]
      exact holds.placed lengths'
    apply ends_reverse both
    intro later turned
    apply done
    have final : (left.reverse ++ right.reverse).reverse = right ++ left := by
      rw [List.reverse_append, List.reverse_reverse, List.reverse_reverse]
    rw [turned, final, turnedRight, holds.place_place lengths' (by rw [List.length_append, List.length_append,
      Nat.add_comm])]

/-- A rotation at any place of the span. -/
theorem ends_rotateAt {mid : Nat} (holds : Holds heap.blocks span elems) (inside : mid ≤ elems.length)
    {post : Unit -> SpanMem α -> Prop}
    (done : forall later : SpanMem α, later.blocks = place heap.blocks span (elems.drop mid ++ elems.take mid) ->
      post () later) :
    Ends (rotate α span mid) heap post := by
  have split : Holds heap.blocks span (elems.take mid ++ elems.drop mid) := by
    rwa [List.take_append_drop]
  have rotated := ends_rotate split done
  rwa [List.length_take, Nat.min_eq_left inside] at rotated

/-- Reversing sends every elem to the place as far from the end as it was from the front, and is undone
by itself; rotating puts the front behind the back, and is undone by rotating at the length of the back. -/
theorem Holds.turns_and_returns (holds : Holds heap.blocks span elems) :
    (Ends (reverse α span) heap fun _ later => exists now, later.blocks = place heap.blocks span now ∧
      now.length = elems.length ∧ forall i, i < elems.length -> now[elems.length - 1 - i]? = elems[i]?) ∧
    (Ends (do
      reverse α span
      reverse α span) heap fun _ later => later.blocks = heap.blocks) ∧
    forall mid, mid ≤ span.len ->
      (Ends (rotate α span mid) heap fun _ later =>
        later.blocks = place heap.blocks span (elems.drop mid ++ elems.take mid)) ∧
      Ends (do
        rotate α span mid
        rotate α span (span.len - mid)) heap fun _ later => later.blocks = heap.blocks := by
  have length := holds.length
  have turned : Ends (reverse α span) heap fun _ later => later.blocks = place heap.blocks span elems.reverse :=
    ends_reverse holds fun _ put => put
  refine ⟨?_, ?_, fun mid inside => ⟨ends_rotateAt holds (by omega) fun _ put => put, ?_⟩⟩
  · refine turned.mono fun _ later put => ⟨elems.reverse, put, List.length_reverse, fun i inside => ?_⟩
    rw [List.getElem?_reverse (by omega)]
    congr 1
    omega
  · rw [ends_bind]
    refine turned.mono fun _ between put => ?_
    have now : Holds between.blocks span elems.reverse := by
      rw [put]
      exact holds.placed List.length_reverse
    apply ends_reverse now
    intro later back
    rw [back, put, List.reverse_reverse, holds.place_place List.length_reverse rfl, holds.place_same]
  · rw [ends_bind]
    apply ends_rotateAt holds (by omega)
    intro between put
    have lengths : (elems.drop mid ++ elems.take mid).length = elems.length := by
      rw [List.length_append, List.length_drop, List.length_take]
      omega
    have now : Holds between.blocks span (elems.drop mid ++ elems.take mid) := by
      rw [put]
      exact holds.placed lengths
    apply ends_rotateAt now (by omega)
    intro later back
    have front : (elems.drop mid).length = span.len - mid := by
      rw [List.length_drop, length]
    rw [back, put, List.drop_left' front, List.take_left' front, List.take_append_drop, holds.place_place lengths rfl,
      holds.place_same]

theorem Holds.turns_and_returns_row : Ends (rotate Nat (rowSpan 0 5) 2) (rowsMem [[4, 5, 6, 7, 8]]) fun _ later =>
    later.blocks = place (rowsMem [[4, 5, 6, 7, 8]]).blocks (rowSpan 0 5) [6, 7, 8, 4, 5] := by
  have small : [4, 5, 6, 7, 8].length < sizeRange := by decide
  have row : Holds (rowsMem [[4, 5, 6, 7, 8]]).blocks (rowSpan 0 5) [4, 5, 6, 7, 8] := rowsMem_holds rfl small
  exact (row.turns_and_returns.2.2 2 (by decide)).1

end Span
end TerseDsa
