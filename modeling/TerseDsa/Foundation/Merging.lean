import TerseDsa.Foundation.Sorting

namespace TerseDsa
namespace Foundation

/-!
# Ways to merge

Two sorted lists can be merged from the back, or cut in two so that what is in
front of the cuts and what is behind them are merged apart.  Each way gives the
stable sort of the two lists one behind the other, and there is only one.
-/

variable {A C : Type} {le : A -> A -> Prop} [DecidableRel le] {ask : A -> A -> C -> Bool × C} {ctx : C}
  {left right left' right' first second : List A}

/-- The merge of two sorted lists is their stable sort. -/
theorem mergeBy_stableSort (order : TotalPreorder le) (asks : AsksBy ask le) (sortedLeft : left.Pairwise le)
    (sortedRight : right.Pairwise le) : StableSort le (left ++ right) (mergeBy ask left right ctx).1 := by
  refine ⟨mergeBy_perm, mergeBy_sorted order asks sortedLeft sortedRight, fun x => ?_⟩
  rw [mergeBy_stable order asks sortedLeft sortedRight, List.filter_append]

/-- One list beside an empty one is sorted already. -/
theorem stableSort_of_nil (sortedLeft : left.Pairwise le) (sortedRight : right.Pairwise le)
    (empty : left = [] ∨ right = []) : StableSort le (left ++ right) (left ++ right) := by
  refine ⟨List.Perm.refl _, ?_, fun _ => rfl⟩
  rcases empty with rfl | rfl
  · exact sortedRight
  · rwa [List.append_nil]

/-! ## From the back -/

/-- Merge two lists from their ends: `ask l r` answers whether `l`, the last of
the left list, goes behind `r`, the last of the right one. -/
def mergeBackBy (ask : A -> A -> C -> Bool × C) (left right : List A) (ctx : C) : List A × C :=
  ((mergeBy (fun r l => ask l r) right.reverse left.reverse ctx).1.reverse,
    (mergeBy (fun r l => ask l r) right.reverse left.reverse ctx).2)

theorem mergeBackBy_nil_left : mergeBackBy ask [] right ctx = (right, ctx) := by
  unfold mergeBackBy
  rw [List.reverse_nil, mergeBy_nil_right, List.reverse_reverse]

theorem mergeBackBy_nil_right : mergeBackBy ask left [] ctx = (left, ctx) := by
  unfold mergeBackBy
  rw [List.reverse_nil, mergeBy_nil_left, List.reverse_reverse]

theorem mergeBackBy_snoc {l r : A} :
    mergeBackBy ask (left ++ [l]) (right ++ [r]) ctx =
      if (ask l r ctx).1 then
        ((mergeBackBy ask left (right ++ [r]) (ask l r ctx).2).1 ++ [l],
          (mergeBackBy ask left (right ++ [r]) (ask l r ctx).2).2)
      else
        ((mergeBackBy ask (left ++ [l]) right (ask l r ctx).2).1 ++ [r],
          (mergeBackBy ask (left ++ [l]) right (ask l r ctx).2).2) := by
  unfold mergeBackBy
  simp only [List.reverse_append, List.reverse_singleton, List.singleton_append]
  rw [mergeBy]
  by_cases yes : (ask l r ctx).1 = true
  · simp only [if_pos yes, List.reverse_cons]
  · simp only [if_neg yes, List.reverse_cons]

theorem mergeBackBy_perm : (mergeBackBy ask left right ctx).1.Perm (left ++ right) := by
  unfold mergeBackBy
  refine (List.reverse_perm _).trans (mergeBy_perm.trans ?_)
  rw [← List.reverse_append]
  exact List.reverse_perm _

/-- Going from the back the ranks are turned around. -/
theorem mergeBackBy_stableSort (order : TotalPreorder le) (asks : AsksBy ask le) (sortedLeft : left.Pairwise le)
    (sortedRight : right.Pairwise le) : StableSort le (left ++ right) (mergeBackBy ask left right ctx).1 := by
  have flipped : TotalPreorder fun x y => le y x := ⟨fun x y => order.total y x, fun first second =>
    order.trans second first⟩
  have asksBack : AsksBy (fun r l => ask l r) fun x y => le y x := fun r l ctx => asks l r ctx
  have same : forall (x : A) (list : List A),
      list.filter (alike (fun x y => le y x) x) = list.filter (alike le x) := by
    intro x list
    congr 1
    funext y
    unfold alike
    rw [decide_eq_decide]
    exact and_comm
  refine ⟨mergeBackBy_perm, ?_, fun x => ?_⟩
  · unfold mergeBackBy
    rw [List.pairwise_reverse]
    exact mergeBy_sorted flipped asksBack (List.pairwise_reverse.mpr sortedRight)
      (List.pairwise_reverse.mpr sortedLeft)
  · have stable : (mergeBy (fun r l => ask l r) right.reverse left.reverse ctx).1.filter
        (alike (fun x y => le y x) x) = right.reverse.filter (alike (fun x y => le y x) x) ++
          left.reverse.filter (alike (fun x y => le y x) x) :=
      mergeBy_stable flipped asksBack (List.pairwise_reverse.mpr sortedRight) (List.pairwise_reverse.mpr sortedLeft) x
    rw [same, same, same] at stable
    unfold mergeBackBy
    dsimp only
    rw [List.filter_reverse, stable, List.reverse_append, List.filter_reverse, List.filter_reverse,
      List.reverse_reverse, List.reverse_reverse, List.filter_append]

/-! ## One elem more -/

/-- An elem is put behind those that it does not go before. -/
theorem StableSort.insert {input front back : List A} {elem : A} (order : TotalPreorder le)
    (sorted : StableSort le input (front ++ back)) (before : forall x, x ∈ front -> le x elem)
    (behind : forall y, y ∈ back -> ¬ le y elem) : StableSort le (input ++ [elem]) (front ++ elem :: back) := by
  have ⟨sortedFront, sortedBack, across⟩ := List.pairwise_append.mp sorted.sorted
  constructor
  · exact List.perm_middle.trans ((sorted.perm.cons elem).trans (List.perm_append_singleton elem input).symm)
  · refine List.pairwise_append.mpr ⟨sortedFront, List.pairwise_cons.mpr ⟨?_, sortedBack⟩, fun x inFront y member => ?_⟩
    · exact fun y inBack => order.of_not (behind y inBack)
    · rcases List.mem_cons.mp member with rfl | inBack
      · exact before x inFront
      · exact across x inFront y inBack
  · intro x
    rw [List.filter_append, List.filter_append, ← sorted.stable x, List.filter_append, List.append_assoc,
      List.append_right_inj]
    by_cases kind : alike le x elem = true
    · -- the elems behind are none of its kind
      have none_ : back.filter (alike le x) = [] := by
        apply List.filter_eq_nil_iff.mpr
        intro y inBack same
        exact behind y inBack (order.trans (alike_iff.mp same).2 (alike_iff.mp kind).1)
      rw [List.filter_cons_of_pos kind, none_, List.filter_cons_of_pos kind]
      rfl
    · rw [List.filter_cons_of_neg kind, List.filter_cons_of_neg kind, List.filter_nil, List.append_nil]

/-! ## In two parts -/

/-- The two lists are cut so that nothing behind the left cut may stand before
anything in front of the right one. -/
theorem StableSort.parts (order : TotalPreorder le) (sortedLeft : (left ++ left').Pairwise le)
    (sortedRight : (right ++ right').Pairwise le) (front : StableSort le (left ++ right) first)
    (back : StableSort le (left' ++ right') second)
    (before : forall x, x ∈ right -> forall y, y ∈ left' -> ¬ le y x)
    (across : forall x, x ∈ left -> forall y, y ∈ right' -> le x y) :
    StableSort le ((left ++ left') ++ (right ++ right')) (first ++ second) := by
  have ⟨_, _, leftCut⟩ := List.pairwise_append.mp sortedLeft
  have ⟨_, _, rightCut⟩ := List.pairwise_append.mp sortedRight
  constructor
  · refine (front.perm.append back.perm).trans ?_
    rw [List.append_assoc, List.append_assoc]
    apply List.Perm.append_left
    rw [← List.append_assoc, ← List.append_assoc]
    exact List.perm_append_comm.append_right _
  · refine List.pairwise_append.mpr ⟨front.sorted, back.sorted, fun x inFirst y inSecond => ?_⟩
    rcases List.mem_append.mp (front.perm.mem_iff.mp inFirst) with inLeft | inRight
    · rcases List.mem_append.mp (back.perm.mem_iff.mp inSecond) with inLeft' | inRight'
      · exact leftCut x inLeft y inLeft'
      · exact across x inLeft y inRight'
    · rcases List.mem_append.mp (back.perm.mem_iff.mp inSecond) with inLeft' | inRight'
      · exact order.of_not (before x inRight y inLeft')
      · exact rightCut x inRight y inRight'
  · intro x
    -- elems of one rank are not on both inner sides of the cuts
    have inner : right.filter (alike le x) = [] ∨ left'.filter (alike le x) = [] := by
      by_contra both
      push Not at both
      rcases List.exists_mem_of_ne_nil _ both.1 with ⟨r, inRight⟩
      rcases List.exists_mem_of_ne_nil _ both.2 with ⟨l, inLeft⟩
      rw [List.mem_filter, alike_iff] at inRight inLeft
      exact before r inRight.1 l inLeft.1 (order.trans inLeft.2.2 inRight.2.1)
    simp only [List.filter_append, front.stable, back.stable]
    rcases inner with empty | empty <;> simp only [empty, List.append_nil, List.nil_append, List.append_assoc]

end Foundation
end TerseDsa
