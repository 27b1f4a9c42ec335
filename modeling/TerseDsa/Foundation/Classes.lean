import Mathlib.Data.Multiset.Count
import Mathlib.Data.List.Count
import Mathlib.Tactic.Common

namespace TerseDsa
namespace Foundation

/-!
# Rows with equally many elems of each class

Under an equivalence two rows are balanced when every class has as many elems
in the one as in the other: they are rearrangements of each other, as rows of
classes.  Rows of one length are balanced as soon as the classes met in one of
them are.
-/

variable {A : Type} {same : A -> A -> Bool} {left right front back rest more : List A}

/-- Each class has as many elems in the one row as in the other. -/
def Balanced (same : A -> A -> Bool) (left right : List A) : Prop :=
  forall key, left.countP (same · key) = right.countP (same · key)

namespace Balanced

theorem symm (balanced : Balanced same left right) : Balanced same right left := fun key => (balanced key).symm

theorem trans (balanced : Balanced same left right) (also : Balanced same right rest) : Balanced same left rest :=
  fun key => (balanced key).trans (also key)

theorem of_perm (perm : left.Perm right) : Balanced same left right := fun _ => perm.countP_eq _

/-- What is balanced in front does not matter for the rest. -/
theorem append_iff (balanced : Balanced same front back) :
    Balanced same (front ++ rest) (back ++ more) <-> Balanced same rest more := by
  apply forall_congr'
  intro key
  rw [List.countP_append, List.countP_append, balanced key]
  exact Nat.add_left_cancel_iff

end Balanced

section Equivalence

variable (equivalence : Equivalence fun x y => same x y = true)

include equivalence

/-- A key asks about its class only. -/
theorem same_congr {x y key : A} (equal : same x y = true) : same x key = same y key := by
  rw [Bool.eq_iff_iff]
  exact ⟨fun also => equivalence.trans (equivalence.symm equal) also, fun also => equivalence.trans equal also⟩

/-- Keys of one class ask about the same class. -/
theorem same_congr_right {x y key : A} (equal : same x y = true) : same key x = same key y := by
  rw [Bool.eq_iff_iff]
  exact ⟨fun also => equivalence.trans also equal, fun also => equivalence.trans also (equivalence.symm equal)⟩

/-- Rows that are equal elem by elem are balanced. -/
theorem balanced_of_forall₂ (equal : List.Forall₂ (fun x y => same x y = true) left right) :
    Balanced same left right := by
  intro key
  induction equal with
  | nil => rfl
  | cons first _ ih =>
      rw [List.countP_cons, List.countP_cons, ih, same_congr equivalence first]

open Classical in
theorem count_classes (row : List A) (key : A) :
    (row.map fun x => (Quotient.mk ⟨_, equivalence⟩ x)).count (Quotient.mk ⟨_, equivalence⟩ key) =
      row.countP (same · key) := by
  rw [List.count, List.countP_map]
  refine List.countP_congr fun x _ => ?_
  simp only [Function.comp, beq_iff_eq]
  exact Quotient.eq (r := ⟨_, equivalence⟩)

open Classical in
/-- Balanced rows are rearrangements of each other, as rows of classes. -/
theorem balanced_iff_perm : Balanced same left right <->
    (left.map fun x => (Quotient.mk ⟨_, equivalence⟩ x)).Perm (right.map fun x => (Quotient.mk ⟨_, equivalence⟩ x)) := by
  rw [List.perm_iff_count]
  constructor
  · intro balanced class_
    induction class_ using Quotient.inductionOn with
    | h key => rw [count_classes, count_classes, balanced key]
  · intro counts key
    rw [← count_classes equivalence, ← count_classes equivalence, counts]

theorem Balanced.length_eq (balanced : Balanced same left right) : left.length = right.length := by
  have perm := (balanced_iff_perm equivalence).mp balanced
  simpa only [List.length_map] using perm.length_eq

open Classical in
/-- In rows of one length no class is left over when those met in one of them are as large in the other. -/
theorem balanced_of_members (length : left.length = right.length)
    (each : forall x, x ∈ left -> left.countP (same · x) = right.countP (same · x)) : Balanced same left right := by
  rw [balanced_iff_perm equivalence, ← Multiset.coe_eq_coe]
  apply Multiset.eq_of_le_of_card_le
  · rw [Multiset.le_iff_count]
    intro class_
    rw [Multiset.coe_count, Multiset.coe_count]
    induction class_ using Quotient.inductionOn with
    | h key =>
        rw [count_classes, count_classes]
        by_cases met : exists x, x ∈ left ∧ same x key = true
        · rcases met with ⟨x, member, equal⟩
          have count := each x member
          simp only [same_congr_right equivalence equal] at count
          exact Nat.le_of_eq count
        · have none_ : left.countP (same · key) = 0 :=
            List.countP_eq_zero.mpr fun x member equal => met ⟨x, member, equal⟩
          rw [none_]
          exact Nat.zero_le _
  · rw [Multiset.coe_card, Multiset.coe_card, List.length_map, List.length_map]
    exact Nat.le_of_eq length.symm

end Equivalence

end Foundation
end TerseDsa
