import Mathlib.Data.List.Basic
import Mathlib.Data.List.Perm.Basic
import Mathlib.Tactic.Common

namespace TerseDsa
namespace Foundation

/-!
# A row with one stretch in another order

An algorithm that works on a stretch of a row, and exchanges elems there, leaves
the stretch in another order and the others where they are.  What is true of all
elems of the stretch stays true of them.
-/

variable {A : Type} {row now later left mid right next : List A} {lo hi lo' hi' idx : Nat} {x : A}

/-- The elems from `lo` on and before `hi` are in another order, the others where they were. -/
structure Rearranged (lo hi : Nat) (row now : List A) : Prop where
  perm : now.Perm row
  outside : forall idx, idx < lo ∨ hi ≤ idx -> now[idx]? = row[idx]?

/-- A row with fewer than two elems is empty, or has the one. -/
theorem short_cases (short : row.length < 2) : row = [] ∨ exists only, row = [only] := by
  rcases (by omega : row.length = 0 ∨ row.length = 1) with none_ | one
  · exact Or.inl (List.length_eq_zero_iff.mp none_)
  · exact Or.inr (List.length_eq_one_iff.mp one)

/-- Three rows one behind the other. -/
theorem getElem?_around (idx : Nat) : (left ++ mid ++ right)[idx]? =
    if idx < left.length then left[idx]? else
      if idx < left.length + mid.length then mid[idx - left.length]? else right[idx - (left.length + mid.length)]? := by
  rw [List.getElem?_append, List.getElem?_append, List.length_append]
  by_cases before : idx < left.length
  · rw [if_pos before, if_pos before, if_pos (by omega)]
  · rw [if_neg before, if_neg before]

/-- Every elem from `lo` on and before `hi` has the property. -/
def Throughout (lo hi : Nat) (row : List A) (property : A -> Prop) : Prop :=
  forall idx x, lo ≤ idx -> idx < hi -> row[idx]? = some x -> property x

namespace Rearranged

theorem length (rearranged : Rearranged lo hi row now) : now.length = row.length := rearranged.perm.length_eq

theorem refl (lo hi : Nat) (row : List A) : Rearranged lo hi row row := ⟨List.Perm.refl row, fun _ _ => rfl⟩

theorem trans (first : Rearranged lo hi row now) (second : Rearranged lo hi now later) : Rearranged lo hi row later :=
  ⟨second.perm.trans first.perm, fun idx out => (second.outside idx out).trans (first.outside idx out)⟩

theorem widen (rearranged : Rearranged lo hi row now) (from_ : lo' ≤ lo) (upTo : hi ≤ hi') :
    Rearranged lo' hi' row now :=
  ⟨rearranged.perm, fun idx out => rearranged.outside idx (by omega)⟩

/-- A stretch of its own is put back into the row. -/
theorem of_part (perm : next.Perm mid) :
    Rearranged left.length (left.length + mid.length) (left ++ mid ++ right) (left ++ next ++ right) := by
  refine ⟨(perm.append_left left).append_right right, fun idx out => ?_⟩
  rw [getElem?_around, getElem?_around, perm.length_eq]
  rcases out with before | behind
  · rw [if_pos before, if_pos before]
  · rw [if_neg (by omega), if_neg (by omega), if_neg (by omega), if_neg (by omega)]

theorem cut (rearranged : Rearranged left.length (left.length + mid.length) (left ++ mid ++ right) now) :
    exists next, now = left ++ next ++ right ∧ next.Perm mid := by
  have total := rearranged.length
  simp only [List.length_append] at total
  have front : now.take left.length = left := by
    apply List.ext_getElem?
    intro idx
    rcases Nat.lt_or_ge idx left.length with before | behind
    · rw [List.getElem?_take_of_lt before, rearranged.outside idx (Or.inl before), List.append_assoc,
        List.getElem?_append_left before]
    · rw [List.getElem?_eq_none (by rw [List.length_take]; omega), List.getElem?_eq_none behind]
  have back : now.drop (left.length + mid.length) = right := by
    apply List.ext_getElem?
    intro idx
    rw [List.getElem?_drop, rearranged.outside _ (Or.inr (Nat.le_add_right _ _)),
      List.getElem?_append_right (by rw [List.length_append]; omega), List.length_append, Nat.add_sub_cancel_left]
  have whole : now = left ++ (now.drop left.length).take mid.length ++ right := by
    conv_lhs => rw [← List.take_append_drop left.length now,
      ← List.take_append_drop mid.length (now.drop left.length), List.drop_drop, front, back]
    rw [List.append_assoc]
  refine ⟨_, whole, ?_⟩
  have perm := rearranged.perm
  rw [whole] at perm
  exact (List.perm_append_left_iff left).mp ((List.perm_append_right_iff right).mp perm)

/-- The elems of the stretch are those that were in it. -/
theorem part (rearranged : Rearranged lo hi row now) (ordered : lo ≤ hi) (within : hi ≤ row.length) :
    ((now.drop lo).take (hi - lo)).Perm ((row.drop lo).take (hi - lo)) := by
  have split : row = row.take lo ++ (row.drop lo).take (hi - lo) ++ row.drop hi := by
    have rest := List.take_append_drop (hi - lo) (row.drop lo)
    rw [List.drop_drop, (by omega : lo + (hi - lo) = hi)] at rest
    rw [List.append_assoc, rest, List.take_append_drop]
  have lengthLeft : (row.take lo).length = lo := by rw [List.length_take]; omega
  have lengthMid : ((row.drop lo).take (hi - lo)).length = hi - lo := by
    rw [List.length_take, List.length_drop]
    omega
  have stretch : Rearranged (row.take lo).length ((row.take lo).length + ((row.drop lo).take (hi - lo)).length)
      (row.take lo ++ (row.drop lo).take (hi - lo) ++ row.drop hi) now := by
    rw [← split, lengthLeft, lengthMid, (by omega : lo + (hi - lo) = hi)]
    exact rearranged
  rcases stretch.cut with ⟨next, rfl, perm⟩
  have size : next.length = hi - lo := perm.length_eq.trans lengthMid
  have back : (row.take lo ++ next ++ row.drop hi).drop lo = next ++ row.drop hi := by
    rw [List.append_assoc, List.drop_left' lengthLeft]
  rw [back, List.take_left' size]
  exact perm

/-- What all elems of the stretch had they still have. -/
theorem throughout {property : A -> Prop} (rearranged : Rearranged lo hi row now) (within : hi ≤ row.length)
    (all : Throughout lo hi row property) : Throughout lo hi now property := by
  intro idx x from_ upTo at_
  have perm := rearranged.part (Nat.le_of_lt (Nat.lt_of_le_of_lt from_ upTo)) within
  have member : x ∈ (now.drop lo).take (hi - lo) := by
    refine List.mem_of_getElem? (i := idx - lo) ?_
    rw [List.getElem?_take_of_lt (by omega), List.getElem?_drop, Nat.add_sub_cancel' from_]
    exact at_
  rcases List.mem_iff_getElem?.mp (perm.mem_iff.mp member) with ⟨place, there⟩
  have inside : place < hi - lo := by
    have small := (List.getElem?_eq_some_iff.mp there).1
    rw [List.length_take] at small
    omega
  rw [List.getElem?_take_of_lt inside, List.getElem?_drop] at there
  exact all (lo + place) x (Nat.le_add_right _ _) (by omega) there

end Rearranged

end Foundation
end TerseDsa
