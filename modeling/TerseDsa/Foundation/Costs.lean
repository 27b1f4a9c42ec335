import TerseDsa.Foundation.Combining
import TerseDsa.Foundation.Passes
import Mathlib.Data.Nat.Log
import Mathlib.Tactic.Ring

namespace TerseDsa
namespace Foundation

/-!
# What it costs to ask

A state may keep count of the questions.  Where a question costs no more than
one, the walks over two lists cost no more than they have elems, and the two
ways to sort by merging no more than that for each time the list can be halved.
Nothing is supposed of the answers.
-/

variable {A B C R : Type} {cost : C -> Nat} {ctx : C}

/-- A question costs no more than one. -/
def Once (cost : C -> Nat) (ask : A -> B -> C -> R × C) : Prop :=
  forall left right ctx, cost (ask left right ctx).2 ≤ cost ctx + 1

section Merging

variable {ask : A -> A -> C -> Bool × C} {left right row nodes : List A}

/-- A merge asks before each elem but the last. -/
theorem mergeBy_cost (once : Once cost ask) :
    cost (mergeBy ask left right ctx).2 ≤ cost ctx + (left.length + right.length - 1) := by
  induction left, right, ctx using mergeBy.induct ask with
  | case1 right ctx =>
      rw [mergeBy_nil_left]
      exact Nat.le_add_right _ _
  | case2 l left ctx =>
      rw [mergeBy_nil_right]
      exact Nat.le_add_right _ _
  | case3 l left r right ctx yes ih =>
      have one := once l r ctx
      rw [mergeBy, if_pos yes]
      simp only [List.length_cons] at ih ⊢
      omega
  | case4 l left r right ctx no ih =>
      have one := once l r ctx
      rw [mergeBy, if_neg no]
      simp only [List.length_cons] at ih ⊢
      omega

/-- A pass over the runs of a list asks no more than the list has elems. -/
theorem mergeRuns_cost (once : Once cost ask) (width : Nat) :
    cost (mergeRuns ask width row ctx).2 ≤ cost ctx + row.length := by
  induction row, ctx using mergeRuns.induct ask width with
  | case1 row ctx some_ front ih =>
      rw [mergeRuns_some some_.1 (List.ne_nil_of_length_pos some_.2)]
      have merged : cost front.2 ≤ _ := mergeBy_cost once
      rw [List.length_drop] at ih
      rw [List.length_take, List.length_take, List.length_drop] at merged
      change cost (mergeRuns ask width (row.drop (2 * width)) front.2).2 ≤ _
      omega
  | case2 row ctx none_ =>
      rw [mergeRuns, if_neg none_]
      exact Nat.le_add_right _ _

/-- A list that is sorted by halves is asked about no more often than its length for each halving. -/
theorem sortBy_cost (once : Once cost ask) :
    cost (sortBy ask nodes ctx).2 ≤ cost ctx + nodes.length * Nat.clog 2 nodes.length := by
  induction nodes, ctx using sortBy.induct ask with
  | case1 nodes ctx short =>
      rw [sortBy_short short]
      exact Nat.le_add_right _ _
  | case2 nodes ctx long leftHypothesis rightHypothesis =>
      rw [sortBy_long long]
      refine Nat.le_trans (mergeBy_cost once) ?_
      rw [sortBy_perm.length_eq, sortBy_perm.length_eq]
      rw [List.length_take, Nat.min_eq_left (Nat.div_le_self _ 2)] at leftHypothesis ⊢
      rw [List.length_drop] at rightHypothesis ⊢
      -- the longer half can be halved once less, and the shorter one no more often
      have halved : Nat.clog 2 nodes.length = Nat.clog 2 (nodes.length - nodes.length / 2) + 1 := by
        rw [Nat.clog_of_two_le (Nat.le_refl 2) (Nat.le_of_not_lt long),
          (by omega : (nodes.length + 2 - 1) / 2 = nodes.length - nodes.length / 2)]
      have shorter : nodes.length / 2 * Nat.clog 2 (nodes.length / 2) ≤
          nodes.length / 2 * Nat.clog 2 (nodes.length - nodes.length / 2) :=
        Nat.mul_le_mul_left _ (Nat.clog_mono_right 2 (by omega))
      have both : nodes.length * Nat.clog 2 (nodes.length - nodes.length / 2) =
          nodes.length / 2 * Nat.clog 2 (nodes.length - nodes.length / 2) +
            (nodes.length - nodes.length / 2) * Nat.clog 2 (nodes.length - nodes.length / 2) := by
        rw [← Nat.add_mul, Nat.add_sub_cancel' (Nat.div_le_self _ 2)]
      rw [halved, Nat.mul_succ]
      omega

end Merging

section Walking

variable {ask : A -> A -> C -> Ordering × C} {left right : List A} {keep : Keeping}

/-- A walk over two lists asks no more than they have elems. -/
theorem combine_cost (once : Once cost ask) :
    cost (combine keep ask left right ctx).2 ≤ cost ctx + (left.length + right.length) := by
  induction left, right, ctx using combine_induction ask with
  | nilLeft right ctx =>
      rw [combine_nil_left]
      exact Nat.le_add_right _ _
  | nilRight left ctx =>
      rw [combine_nil_right]
      exact Nat.le_add_right _ _
  | less l left r right ctx answer ih =>
      have one := once l r ctx
      rw [combine_lt answer]
      simp only [List.length_cons] at ih ⊢
      omega
  | greater l left r right ctx answer ih =>
      have one := once l r ctx
      rw [combine_gt answer]
      simp only [List.length_cons] at ih ⊢
      omega
  | same l left r right ctx answer ih =>
      have one := once l r ctx
      rw [combine_eq answer]
      simp only [List.length_cons] at ih ⊢
      omega

/-- So does the walk that looks for the one list in the other, which asks twice about a pair. -/
theorem includesBy_cost (once : Once cost ask) :
    cost (includesBy ask left right ctx).2 ≤ cost ctx + (left.length + right.length) := by
  induction left, right, ctx using includesBy.induct ask with
  | case1 left ctx =>
      rw [includesBy_nil]
      exact Nat.le_add_right _ _
  | case2 s sub ctx =>
      rw [includesBy]
      exact Nat.le_add_right _ _
  | case3 u sup s sub ctx less ih =>
      have one := once u s ctx
      rw [includesBy, if_pos less]
      simp only [List.length_cons] at ih ⊢
      omega
  | case4 u sup s sub ctx notLess greater =>
      have one := once u s ctx
      have two := once u s (ask u s ctx).2
      rw [includesBy, if_neg notLess, if_pos greater]
      simp only [List.length_cons]
      omega
  | case5 u sup s sub ctx notLess notGreater ih =>
      have one := once u s ctx
      have two := once u s (ask u s ctx).2
      rw [includesBy, if_neg notLess, if_neg notGreater]
      simp only [List.length_cons] at ih ⊢
      omega

end Walking

end Foundation
end TerseDsa
