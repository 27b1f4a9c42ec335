import Mathlib.Data.List.Basic
import Mathlib.Tactic.Common

namespace TerseDsa
namespace Foundation

/-!
# Stable sorting and merging

Elems are ranked by a total preorder, so that different elems may be alike.
A list is stably sorted when it is ordered and, of every kind of alike elems,
has the same ones in the same order as before; there is only one such list.

`mergeBy` and `sortBy` merge and sort by asking a comparator that may keep
state between its answers.  They permute the elems whatever it answers, and
sort stably when it answers by the ranks.
-/

variable {A B C : Type} {le : A -> A -> Prop} {input output left right nodes : List A} {x y : A}

/-- Any two elems are ranked, and ranks are transitive. -/
structure TotalPreorder (le : A -> A -> Prop) : Prop where
  total : forall x y, le x y ∨ le y x
  trans : forall {x y z}, le x y -> le y z -> le x z

theorem TotalPreorder.refl (order : TotalPreorder le) (x : A) : le x x :=
  (order.total x x).elim id id

/-- What is not before another is behind it. -/
theorem TotalPreorder.of_not (order : TotalPreorder le) (not_ : ¬ le x y) : le y x :=
  (order.total x y).resolve_left not_

/-! ## Stably sorted lists -/

section Stable

variable [DecidableRel le]

/-- Whether two elems have one rank. -/
def alike (le : A -> A -> Prop) [DecidableRel le] (x y : A) : Bool := decide (le x y ∧ le y x)

theorem alike_iff : alike le x y = true <-> le x y ∧ le y x := decide_eq_true_iff

/-- The output is the input, sorted stably. -/
structure StableSort (le : A -> A -> Prop) [DecidableRel le] (input output : List A) : Prop where
  perm : output.Perm input
  sorted : output.Pairwise le
  stable : forall x, output.filter (alike le x) = input.filter (alike le x)

/-- An ordered list is known by its elems of each rank. -/
theorem eq_of_stable (order : TotalPreorder le) (sortedLeft : left.Pairwise le)
    (sortedRight : right.Pairwise le)
    (same : forall x, left.filter (alike le x) = right.filter (alike le x)) : left = right := by
  have among : forall {first second : List A} {x : A},
      (forall x, first.filter (alike le x) = second.filter (alike le x)) -> x ∈ first ->
      x ∈ second := by
    intro first second x agree member
    have inFilter : x ∈ first.filter (alike le x) :=
      List.mem_filter.mpr ⟨member, alike_iff.mpr ⟨order.refl x, order.refl x⟩⟩
    rw [agree x] at inFilter
    exact (List.mem_filter.mp inFilter).1
  induction left generalizing right with
  | nil =>
      cases right with
      | nil => rfl
      | cons b _ => exact absurd (among (fun x => (same x).symm) List.mem_cons_self) List.not_mem_nil
  | cons a lefts ih =>
      cases right with
      | nil => exact absurd (among same List.mem_cons_self) List.not_mem_nil
      | cons b rights =>
          have ⟨aFirst, leftRest⟩ := List.pairwise_cons.mp sortedLeft
          have ⟨bFirst, rightRest⟩ := List.pairwise_cons.mp sortedRight
          have ab : le a b := by
            rcases List.mem_cons.mp (among (fun x => (same x).symm) List.mem_cons_self) with rfl | later
            · exact order.refl b
            · exact aFirst b later
          have ba : le b a := by
            rcases List.mem_cons.mp (among same List.mem_cons_self) with rfl | later
            · exact order.refl a
            · exact bFirst a later
          have heads := same a
          rw [List.filter_cons_of_pos (alike_iff.mpr ⟨order.refl a, order.refl a⟩),
            List.filter_cons_of_pos (alike_iff.mpr ⟨ab, ba⟩)] at heads
          have first : a = b := (List.cons.inj heads).1
          subst first
          rw [ih leftRest rightRest]
          intro x
          have both := same x
          by_cases kind : alike le x a = true
          · rw [List.filter_cons_of_pos kind, List.filter_cons_of_pos kind] at both
            exact (List.cons.inj both).2
          · rw [List.filter_cons_of_neg kind, List.filter_cons_of_neg kind] at both
            exact both

theorem StableSort.unique {other : List A} (order : TotalPreorder le)
    (first : StableSort le input output) (second : StableSort le input other) : output = other :=
  eq_of_stable order first.sorted second.sorted fun x => (first.stable x).trans (second.stable x).symm

end Stable

/-! ## Merging -/

/-- Merge two lists: `ask l r` answers whether `r`, of the right list, goes
before `l`, of the left one. -/
def mergeBy (ask : A -> A -> C -> Bool × C) : List A -> List A -> C -> List A × C
  | [], right, ctx => (right, ctx)
  | l :: left, [], ctx => (l :: left, ctx)
  | l :: left, r :: right, ctx =>
      if (ask l r ctx).1 then
        let merged := mergeBy ask (l :: left) right (ask l r ctx).2
        (r :: merged.1, merged.2)
      else
        let merged := mergeBy ask left (r :: right) (ask l r ctx).2
        (l :: merged.1, merged.2)
termination_by left right => left.length + right.length

section Merge

variable {ask : A -> A -> C -> Bool × C} {ctx : C}

theorem mergeBy_nil_left : mergeBy ask [] right ctx = (right, ctx) := by
  rw [mergeBy]

theorem mergeBy_nil_right : mergeBy ask left [] ctx = (left, ctx) := by
  cases left with
  | nil => rw [mergeBy]
  | cons l left => rw [mergeBy]

theorem mergeBy_perm : (mergeBy ask left right ctx).1.Perm (left ++ right) := by
  induction left, right, ctx using mergeBy.induct ask with
  | case1 right ctx => rw [mergeBy_nil_left, List.nil_append]
  | case2 l left ctx => rw [mergeBy_nil_right, List.append_nil]
  | case3 l left r right ctx yes ih =>
      rw [mergeBy, if_pos yes]
      exact (ih.cons r).trans List.perm_middle.symm
  | case4 l left r right ctx no ih =>
      rw [mergeBy, if_neg no]
      exact ih.cons l

/-- Merging by an image of the elems merges the images. -/
theorem mergeBy_map {ask : B -> B -> C -> Bool × C} (image : A -> B) :
    mergeBy ask (left.map image) (right.map image) ctx =
      ((mergeBy (fun l r => ask (image l) (image r)) left right ctx).1.map image,
        (mergeBy (fun l r => ask (image l) (image r)) left right ctx).2) := by
  induction left, right, ctx using mergeBy.induct (fun l r => ask (image l) (image r)) with
  | case1 right ctx => rw [List.map_nil, mergeBy_nil_left, mergeBy_nil_left]
  | case2 l left ctx => rw [List.map_nil, mergeBy_nil_right, mergeBy_nil_right]
  | case3 l left r right ctx yes ih =>
      rw [List.map_cons] at ih
      rw [List.map_cons, List.map_cons, mergeBy, mergeBy, if_pos yes, if_pos yes]
      rw [ih]
      rfl
  | case4 l left r right ctx no ih =>
      rw [List.map_cons] at ih
      rw [List.map_cons, List.map_cons, mergeBy, mergeBy, if_neg no, if_neg no]
      rw [ih]
      rfl

variable [DecidableRel le]

/-- The comparator answers by the ranks, whatever state it is in. -/
def AsksBy (ask : A -> A -> C -> Bool × C) (le : A -> A -> Prop) : Prop :=
  forall l r ctx, (ask l r ctx).1 = true <-> ¬ le l r

theorem mergeBy_sorted (order : TotalPreorder le) (asks : AsksBy ask le)
    (sortedLeft : left.Pairwise le) (sortedRight : right.Pairwise le) :
    (mergeBy ask left right ctx).1.Pairwise le := by
  induction left, right, ctx using mergeBy.induct ask with
  | case1 right ctx =>
      rw [mergeBy_nil_left]
      exact sortedRight
  | case2 l left ctx =>
      rw [mergeBy_nil_right]
      exact sortedLeft
  | case3 l left r right ctx yes ih =>
      have ⟨leftFirst, leftRest⟩ := List.pairwise_cons.mp sortedLeft
      have ⟨rightFirst, rightRest⟩ := List.pairwise_cons.mp sortedRight
      have before : le r l := order.of_not ((asks l r ctx).mp yes)
      rw [mergeBy, if_pos yes]
      apply List.pairwise_cons.mpr
      apply And.intro _ (ih sortedLeft rightRest)
      intro other member
      rcases List.mem_append.mp (mergeBy_perm.mem_iff.mp member) with inLeft | inRight
      · rcases List.mem_cons.mp inLeft with rfl | later
        · exact before
        · exact order.trans before (leftFirst other later)
      · exact rightFirst other inRight
  | case4 l left r right ctx no ih =>
      have ⟨leftFirst, leftRest⟩ := List.pairwise_cons.mp sortedLeft
      have ⟨rightFirst, rightRest⟩ := List.pairwise_cons.mp sortedRight
      have before : le l r := Decidable.of_not_not fun not_ => no ((asks l r ctx).mpr not_)
      rw [mergeBy, if_neg no]
      apply List.pairwise_cons.mpr
      apply And.intro _ (ih leftRest sortedRight)
      intro other member
      rcases List.mem_append.mp (mergeBy_perm.mem_iff.mp member) with inLeft | inRight
      · exact leftFirst other inLeft
      · rcases List.mem_cons.mp inRight with rfl | later
        · exact before
        · exact order.trans before (rightFirst other later)

/-- Of alike elems, those of the left list come first. -/
theorem mergeBy_stable (order : TotalPreorder le) (asks : AsksBy ask le)
    (sortedLeft : left.Pairwise le) (sortedRight : right.Pairwise le) (x : A) :
    (mergeBy ask left right ctx).1.filter (alike le x) =
      left.filter (alike le x) ++ right.filter (alike le x) := by
  induction left, right, ctx using mergeBy.induct ask with
  | case1 right ctx => rw [mergeBy_nil_left, List.filter_nil, List.nil_append]
  | case2 l left ctx => rw [mergeBy_nil_right, List.filter_nil, List.append_nil]
  | case3 l left r right ctx yes ih =>
      have behind : ¬ le l r := (asks l r ctx).mp yes
      have leftFirst := (List.pairwise_cons.mp sortedLeft).1
      rw [mergeBy, if_pos yes]
      dsimp only
      by_cases kind : alike le x r = true
      · -- the left elems are all behind `r`, so none of them is of its rank
        have none_ : (l :: left).filter (alike le x) = [] := by
          apply List.filter_eq_nil_iff.mpr
          intro other member same
          have lo : le l other := by
            rcases List.mem_cons.mp member with rfl | later
            · exact order.refl other
            · exact leftFirst other later
          exact behind (order.trans lo (order.trans (alike_iff.mp same).2 (alike_iff.mp kind).1))
        rw [List.filter_cons_of_pos kind, List.filter_cons_of_pos kind,
          ih sortedLeft (List.pairwise_cons.mp sortedRight).2, none_]
        rfl
      · rw [List.filter_cons_of_neg kind, List.filter_cons_of_neg kind,
          ih sortedLeft (List.pairwise_cons.mp sortedRight).2]
  | case4 l left r right ctx no ih =>
      rw [mergeBy, if_neg no]
      dsimp only
      by_cases kind : alike le x l = true
      · rw [List.filter_cons_of_pos kind, List.filter_cons_of_pos kind,
          ih (List.pairwise_cons.mp sortedLeft).2 sortedRight]
        rfl
      · rw [List.filter_cons_of_neg kind, List.filter_cons_of_neg kind,
          ih (List.pairwise_cons.mp sortedLeft).2 sortedRight]

theorem StableSort.merge {sortedLeft sortedRight : List A} (order : TotalPreorder le) (asks : AsksBy ask le)
    (first : StableSort le left sortedLeft) (second : StableSort le right sortedRight) :
    StableSort le (left ++ right) (mergeBy ask sortedLeft sortedRight ctx).1 := by
  constructor
  · exact mergeBy_perm.trans (first.perm.append second.perm)
  · exact mergeBy_sorted order asks first.sorted second.sorted
  · intro x
    rw [mergeBy_stable order asks first.sorted second.sorted, first.stable, second.stable, List.filter_append]

end Merge

/-! ## Sorting by halves -/

/-- Sort both halves, the left one first, and merge them. -/
def sortBy (ask : A -> A -> C -> Bool × C) (nodes : List A) (ctx : C) : List A × C :=
  if nodes.length < 2 then
    (nodes, ctx)
  else
    mergeBy ask (sortBy ask (nodes.take (nodes.length / 2)) ctx).1
      (sortBy ask (nodes.drop (nodes.length / 2))
        (sortBy ask (nodes.take (nodes.length / 2)) ctx).2).1
      (sortBy ask (nodes.drop (nodes.length / 2))
        (sortBy ask (nodes.take (nodes.length / 2)) ctx).2).2
termination_by nodes.length
decreasing_by
  all_goals simp only [List.length_take, List.length_drop]; omega

section Halves

variable {ask : A -> A -> C -> Bool × C} {ctx : C}

theorem sortBy_short (short : nodes.length < 2) : sortBy ask nodes ctx = (nodes, ctx) := by
  rw [sortBy, if_pos short]

theorem sortBy_long (long : ¬ nodes.length < 2) :
    sortBy ask nodes ctx =
      mergeBy ask (sortBy ask (nodes.take (nodes.length / 2)) ctx).1
        (sortBy ask (nodes.drop (nodes.length / 2))
          (sortBy ask (nodes.take (nodes.length / 2)) ctx).2).1
        (sortBy ask (nodes.drop (nodes.length / 2))
          (sortBy ask (nodes.take (nodes.length / 2)) ctx).2).2 := by
  rw [sortBy, if_neg long]

theorem sortBy_perm : (sortBy ask nodes ctx).1.Perm nodes := by
  induction nodes, ctx using sortBy.induct ask with
  | case1 nodes ctx short => rw [sortBy_short short]
  | case2 nodes ctx long leftHypothesis rightHypothesis =>
      rw [sortBy_long long]
      apply mergeBy_perm.trans
      have halves := leftHypothesis.append rightHypothesis
      rw [List.take_append_drop] at halves
      exact halves

/-- Sorting by an image of the elems sorts the images. -/
theorem sortBy_map {ask : B -> B -> C -> Bool × C} (image : A -> B) :
    sortBy ask (nodes.map image) ctx =
      ((sortBy (fun l r => ask (image l) (image r)) nodes ctx).1.map image,
        (sortBy (fun l r => ask (image l) (image r)) nodes ctx).2) := by
  induction nodes, ctx using sortBy.induct (fun l r => ask (image l) (image r)) with
  | case1 nodes ctx short =>
      rw [sortBy_short short, sortBy_short (by rw [List.length_map]; exact short)]
  | case2 nodes ctx long leftHypothesis rightHypothesis =>
      rw [sortBy_long long, sortBy_long (by rw [List.length_map]; exact long)]
      rw [List.length_map, ← List.map_take, ← List.map_drop, leftHypothesis]
      dsimp only
      rw [rightHypothesis, mergeBy_map]

theorem sortBy_stableSort [DecidableRel le] (order : TotalPreorder le) (asks : AsksBy ask le) :
    StableSort le nodes (sortBy ask nodes ctx).1 := by
  induction nodes, ctx using sortBy.induct ask with
  | case1 nodes ctx short =>
      rw [sortBy_short short]
      refine ⟨List.Perm.refl _, ?_, fun _ => rfl⟩
      match nodes, short with
      | [], _ => exact List.Pairwise.nil
      | [node], _ => exact List.pairwise_singleton _ _
  | case2 nodes ctx long leftHypothesis rightHypothesis =>
      have halves : StableSort le (nodes.take (nodes.length / 2) ++ nodes.drop (nodes.length / 2))
          (sortBy ask nodes ctx).1 := by
        rw [sortBy_long long]
        exact leftHypothesis.merge order asks rightHypothesis
      rwa [List.take_append_drop] at halves

end Halves

end Foundation
end TerseDsa
