import Mathlib.Data.List.Forall2
import Mathlib.Data.Int.Order.Basic
import Mathlib.Tactic.Common

namespace TerseDsa
namespace Foundation

/-!
# Rows in lexicographic order

Rows are compared by the first pair of elems that differ, and a row that ends
goes before one that does not.  The elems need only be in a total preorder:
elems that tie may be different ones, and then rows tie that are.
-/

variable {A : Type} {order : A -> A -> Int} {left right rest : List A}

/-- The signs of `order` are those of a total preorder. -/
structure SignOrder (order : A -> A -> Int) : Prop where
  antisymm : forall lhs rhs, order lhs rhs < 0 <-> 0 < order rhs lhs
  trans : forall {a b c}, order a b ≤ 0 -> order b c ≤ 0 -> order a c ≤ 0

/-- -1, 0 or 1: what the first pair says that differs, or the lengths. -/
def lexCompare (order : A -> A -> Int) : List A -> List A -> Int
  | [], [] => 0
  | [], _ :: _ => -1
  | _ :: _, [] => 1
  | a :: left, b :: right =>
      if order a b = 0 then lexCompare order left right else if order a b < 0 then -1 else 1

/-- Both rows have an elem at `k`, and these differ. -/
def DiffersAt (order : A -> A -> Int) (left right : List A) (k : Nat) : Prop :=
  exists a b, left[k]? = some a ∧ right[k]? = some b ∧ order a b ≠ 0

theorem DiffersAt.inside {k : Nat} (differs : DiffersAt order left right k) : k < left.length ∧ k < right.length := by
  rcases differs with ⟨x, y, atLeft, atRight, _⟩
  exact ⟨(List.getElem?_eq_some_iff.mp atLeft).1, (List.getElem?_eq_some_iff.mp atRight).1⟩

theorem differsAt_iff {k : Nat} (insideLeft : k < left.length) (insideRight : k < right.length) :
    DiffersAt order left right k <-> order left[k] right[k] ≠ 0 := by
  simp only [DiffersAt, List.getElem?_eq_getElem insideLeft, List.getElem?_eq_getElem insideRight, Option.some_inj,
    exists_and_left, exists_eq_left']

/-- Not behind the second row: the first pair is in order, or it ties and the rest is. -/
theorem lexCompare_cons_le {a b : A} : lexCompare order (a :: left) (b :: right) ≤ 0 <->
    order a b < 0 ∨ (order a b = 0 ∧ lexCompare order left right ≤ 0) := by
  simp only [lexCompare]
  by_cases tie : order a b = 0
  · simp only [tie, if_true, Int.lt_irrefl, true_and, false_or]
  · by_cases less : order a b < 0
    · simp only [tie, less, if_false, if_true, true_or, iff_true]
      decide
    · simp only [tie, less, if_false, false_and, or_self, iff_false]
      decide

namespace SignOrder

variable (orders : SignOrder order)

include orders

theorem eq_zero_comm {a b : A} : order a b = 0 <-> order b a = 0 := by
  have first := orders.antisymm a b
  have second := orders.antisymm b a
  omega

theorem self_eq_zero (a : A) : order a a = 0 := by
  have both := orders.antisymm a a
  omega

theorem lt_of_lt_of_le {a b c : A} (first : order a b < 0) (second : order b c ≤ 0) : order a c < 0 := by
  by_contra behind
  have ca := orders.antisymm a c
  have swapped := orders.antisymm c a
  have ba := orders.antisymm a b
  have back := orders.trans second (show order c a ≤ 0 by omega)
  omega

theorem lt_of_le_of_lt {a b c : A} (first : order a b ≤ 0) (second : order b c < 0) : order a c < 0 := by
  by_contra behind
  have ca := orders.antisymm a c
  have swapped := orders.antisymm c a
  have cb := orders.antisymm b c
  have back := orders.trans (show order c a ≤ 0 by omega) first
  omega

theorem lexCompare_swap (left right : List A) : lexCompare order left right = -lexCompare order right left := by
  induction left generalizing right with
  | nil =>
      cases right with
      | nil => rfl
      | cons b right => rfl
  | cons a left ih =>
      cases right with
      | nil => rfl
      | cons b right =>
          have ab := orders.antisymm a b
          have ba := orders.antisymm b a
          simp only [lexCompare]
          rcases Int.lt_trichotomy (order a b) 0 with less | tie | more
          · rw [if_neg (by omega), if_pos less, if_neg (by omega), if_neg (by omega)]
          · rw [if_pos tie, if_pos (by omega)]
            exact ih right
          · rw [if_neg (by omega), if_neg (by omega), if_neg (by omega), if_pos (by omega)]
            rfl

theorem lexCompare_trans (first : lexCompare order left right ≤ 0) (second : lexCompare order right rest ≤ 0) :
    lexCompare order left rest ≤ 0 := by
  induction left generalizing right rest with
  | nil =>
      cases rest with
      | nil => exact Int.le_refl 0
      | cons c rest => exact (by decide : (-1 : Int) ≤ 0)
  | cons a left ih =>
      cases right with
      | nil => exact absurd first (by simp only [lexCompare]; decide)
      | cons b right =>
          cases rest with
          | nil => exact absurd second (by simp only [lexCompare]; decide)
          | cons c rest =>
              rw [lexCompare_cons_le] at first second ⊢
              rcases first with less | ⟨tie, le⟩
              · rcases second with also | ⟨also, _⟩
                · exact Or.inl (orders.lt_of_lt_of_le less (Int.le_of_lt also))
                · exact Or.inl (orders.lt_of_lt_of_le less (Int.le_of_eq also))
              · rcases second with also | ⟨also, leToo⟩
                · exact Or.inl (orders.lt_of_le_of_lt (Int.le_of_eq tie) also)
                · have there := orders.trans (Int.le_of_eq tie) (Int.le_of_eq also)
                  have back := orders.trans (Int.le_of_eq ((orders.eq_zero_comm).mp also))
                    (Int.le_of_eq ((orders.eq_zero_comm).mp tie))
                  have ac := orders.antisymm a c
                  have ca := orders.antisymm c a
                  exact Or.inr ⟨by omega, ih le leToo⟩

theorem lexCompare_le_iff (left right : List A) :
    lexCompare order left right ≤ 0 <-> ¬ lexCompare order right left < 0 := by
  have swap := orders.lexCompare_swap left right
  omega

theorem lexCompare_lt_of_lt_of_le (first : lexCompare order left right < 0)
    (second : lexCompare order right rest ≤ 0) : lexCompare order left rest < 0 := by
  by_contra behind
  rw [← orders.lexCompare_le_iff] at behind
  have back := orders.lexCompare_trans second behind
  rw [orders.lexCompare_le_iff] at back
  exact back first

end SignOrder

/-- Rows tie that are as long and tie elem by elem. -/
theorem lexCompare_eq_zero (left right : List A) :
    lexCompare order left right = 0 <-> List.Forall₂ (fun a b => order a b = 0) left right := by
  induction left generalizing right with
  | nil =>
      cases right with
      | nil => exact ⟨fun _ => List.Forall₂.nil, fun _ => rfl⟩
      | cons b right =>
          exact ⟨fun zero => absurd zero (by simp only [lexCompare]; decide), fun equal => by cases equal⟩
  | cons a left ih =>
      cases right with
      | nil => exact ⟨fun zero => absurd zero (by simp only [lexCompare]; decide), fun equal => by cases equal⟩
      | cons b right =>
          rw [List.forall₂_cons, ← ih]
          simp only [lexCompare]
          by_cases tie : order a b = 0
          · simp only [tie, if_true, true_and]
          · simp only [tie, if_false, false_and, iff_false]
            split <;> decide

theorem SignOrder.lexCompare_self (orders : SignOrder order) (row : List A) : lexCompare order row row = 0 :=
  (lexCompare_eq_zero row row).mpr (List.forall₂_same.mpr fun a _ => orders.self_eq_zero a)

/-- The first pair that differs decides. -/
theorem lexCompare_of_differs {k : Nat} {a b : A} (first : left[k]? = some a) (second : right[k]? = some b)
    (differ : order a b ≠ 0) (before : forall i, i < k -> ¬ DiffersAt order left right i) :
    lexCompare order left right = if order a b < 0 then -1 else 1 := by
  induction k generalizing left right with
  | zero =>
      cases left with
      | nil => cases first
      | cons x left =>
          cases right with
          | nil => cases second
          | cons y right =>
              cases first
              cases second
              simp only [lexCompare, if_neg differ]
  | succ k ih =>
      cases left with
      | nil => cases first
      | cons x left =>
          cases right with
          | nil => cases second
          | cons y right =>
              have tie : order x y = 0 := by
                by_contra apart
                exact before 0 (Nat.zero_lt_succ k) ⟨x, y, rfl, rfl, apart⟩
              simp only [lexCompare, if_pos tie]
              exact ih first second fun i early => before (i + 1) (Nat.succ_lt_succ early)

/-- If no pair differs, the lengths decide. -/
theorem lexCompare_of_none (none_ : forall k, ¬ DiffersAt order left right k) :
    lexCompare order left right =
      (if left.length > right.length then 1 else 0) - (if left.length < right.length then 1 else 0) := by
  induction left generalizing right with
  | nil =>
      cases right with
      | nil => rfl
      | cons b right => rfl
  | cons a left ih =>
      cases right with
      | nil => rfl
      | cons b right =>
          have tie : order a b = 0 := by
            by_contra apart
            exact none_ 0 ⟨a, b, rfl, rfl, apart⟩
          have rest := ih fun k => none_ (k + 1)
          simp only [lexCompare, if_pos tie, List.length_cons, gt_iff_lt, Nat.add_lt_add_iff_right] at rest ⊢
          exact rest

end Foundation
end TerseDsa
