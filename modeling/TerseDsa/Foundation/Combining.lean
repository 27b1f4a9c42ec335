import TerseDsa.Foundation.Sorting

namespace TerseDsa
namespace Foundation

/-!
# Set operations on sorted lists

A walk over two lists compares their first elems.  The lesser one is passed, or
both where they are alike, and what is passed is kept or dropped by its kind:
in the left list only, in the right one only, or in both.  The four set
operations differ in nothing else.  On sorted lists they are the operations on
multisets, told for each class of alike elems: which elems of which list are kept.
-/

variable {A C : Type} {le : A -> A -> Prop} {ask : A -> A -> C -> Ordering × C} {ctx : C}
  {left right : List A} {l r x : A}

/-- What a walk keeps: an elem of the left list only, one of the right list only, the left one of a pair. -/
structure Keeping where
  left : Bool
  right : Bool
  both : Bool

variable {keep : Keeping}

/-- An elem in front, if it is kept. -/
def consIf (kept : Bool) (x : A) (rest : List A) : List A := if kept = true then x :: rest else rest

/-- All of these, if they are kept. -/
def allIf (kept : Bool) (rest : List A) : List A := if kept = true then rest else []

/-- The elems kept of two lists, and the state left. -/
def combine (keep : Keeping) (ask : A -> A -> C -> Ordering × C) : List A -> List A -> C -> List A × C
  | [], right, ctx => (allIf keep.right right, ctx)
  | l :: left, [], ctx => (allIf keep.left (l :: left), ctx)
  | l :: left, r :: right, ctx =>
      match (ask l r ctx).1 with
      | .lt =>
          let rest := combine keep ask left (r :: right) (ask l r ctx).2
          (consIf keep.left l rest.1, rest.2)
      | .gt =>
          let rest := combine keep ask (l :: left) right (ask l r ctx).2
          (consIf keep.right r rest.1, rest.2)
      | .eq =>
          let rest := combine keep ask left right (ask l r ctx).2
          (consIf keep.both l rest.1, rest.2)
termination_by left right => left.length + right.length

/-! ## One turn of the walk -/

theorem combine_nil_left : combine keep ask [] right ctx = (allIf keep.right right, ctx) := by
  rw [combine]

theorem combine_nil_right : combine keep ask left [] ctx = (allIf keep.left left, ctx) := by
  cases left with
  | nil =>
      rw [combine]
      unfold allIf
      rw [ite_self, ite_self]
  | cons l left => rw [combine]

theorem combine_lt (less : (ask l r ctx).1 = .lt) :
    combine keep ask (l :: left) (r :: right) ctx =
      (consIf keep.left l (combine keep ask left (r :: right) (ask l r ctx).2).1,
        (combine keep ask left (r :: right) (ask l r ctx).2).2) := by
  rw [combine, less]

theorem combine_gt (greater : (ask l r ctx).1 = .gt) :
    combine keep ask (l :: left) (r :: right) ctx =
      (consIf keep.right r (combine keep ask (l :: left) right (ask l r ctx).2).1,
        (combine keep ask (l :: left) right (ask l r ctx).2).2) := by
  rw [combine, greater]

theorem combine_eq (same : (ask l r ctx).1 = .eq) :
    combine keep ask (l :: left) (r :: right) ctx =
      (consIf keep.both l (combine keep ask left right (ask l r ctx).2).1,
        (combine keep ask left right (ask l r ctx).2).2) := by
  rw [combine, same]

theorem combine_induction (ask : A -> A -> C -> Ordering × C) {motive : List A -> List A -> C -> Prop}
    (nilLeft : forall right ctx, motive [] right ctx) (nilRight : forall left ctx, motive left [] ctx)
    (less : forall l left r right ctx, (ask l r ctx).1 = .lt -> motive left (r :: right) (ask l r ctx).2 ->
      motive (l :: left) (r :: right) ctx)
    (greater : forall l left r right ctx, (ask l r ctx).1 = .gt -> motive (l :: left) right (ask l r ctx).2 ->
      motive (l :: left) (r :: right) ctx)
    (same : forall l left r right ctx, (ask l r ctx).1 = .eq -> motive left right (ask l r ctx).2 ->
      motive (l :: left) (r :: right) ctx) (left right : List A) (ctx : C) : motive left right ctx := by
  induction left, right, ctx using combine.induct ⟨true, true, true⟩ ask with
  | case1 right ctx => exact nilLeft right ctx
  | case2 l left ctx => exact nilRight (l :: left) ctx
  | case3 l left r right ctx answer ih => exact less l left r right ctx answer ih
  | case4 l left r right ctx answer ih => exact greater l left r right ctx answer ih
  | case5 l left r right ctx answer ih => exact same l left r right ctx answer ih

/-! ## Whatever the answers -/

theorem mem_consIf {kept : Bool} {rest : List A} (member : x ∈ consIf kept l rest) : x = l ∨ x ∈ rest := by
  unfold consIf at member
  split at member
  · exact List.mem_cons.mp member
  · exact Or.inr member

theorem mem_allIf {kept : Bool} {rest : List A} (member : x ∈ allIf kept rest) : x ∈ rest := by
  unfold allIf at member
  split at member
  · exact member
  · exact absurd member List.not_mem_nil

theorem length_consIf (kept : Bool) (rest : List A) :
    (consIf kept x rest).length = rest.length + if kept = true then 1 else 0 := by
  unfold consIf
  split <;> rfl

theorem length_allIf (kept : Bool) (rest : List A) :
    (allIf kept rest).length = if kept = true then rest.length else 0 := by
  unfold allIf
  split <;> rfl

theorem mem_combine : x ∈ (combine keep ask left right ctx).1 -> x ∈ left ∨ x ∈ right := by
  induction left, right, ctx using combine_induction ask with
  | nilLeft right ctx =>
      rw [combine_nil_left]
      exact fun member => Or.inr (mem_allIf member)
  | nilRight left ctx =>
      rw [combine_nil_right]
      exact fun member => Or.inl (mem_allIf member)
  | less l left r right ctx answer ih =>
      rw [combine_lt answer]
      intro member
      rcases mem_consIf member with rfl | later
      · exact Or.inl List.mem_cons_self
      · exact (ih later).imp_left (List.mem_cons_of_mem l)
  | greater l left r right ctx answer ih =>
      rw [combine_gt answer]
      intro member
      rcases mem_consIf member with rfl | later
      · exact Or.inr List.mem_cons_self
      · exact (ih later).imp_right (List.mem_cons_of_mem r)
  | same l left r right ctx answer ih =>
      rw [combine_eq answer]
      intro member
      rcases mem_consIf member with rfl | later
      · exact Or.inl List.mem_cons_self
      · exact (ih later).imp (List.mem_cons_of_mem l) (List.mem_cons_of_mem r)

/-- The most that can be kept of lists of these lengths. -/
def Keeping.room (keep : Keeping) (many few : Nat) : Nat :=
  if keep.right = true then many + few else if keep.left = true then many else min many few

theorem room_step (keep : Keeping) (many few : Nat) :
    keep.room many (few + 1) + (if keep.left = true then 1 else 0) ≤ keep.room (many + 1) (few + 1) ∧
      keep.room (many + 1) few + (if keep.right = true then 1 else 0) ≤ keep.room (many + 1) (few + 1) ∧
      keep.room many few + (if keep.both = true then 1 else 0) ≤ keep.room (many + 1) (few + 1) := by
  rcases keep with ⟨inLeft, inRight, inBoth⟩
  cases inLeft <;> cases inRight <;> cases inBoth <;> simp only [Keeping.room] <;> grind

theorem length_combine_le : (combine keep ask left right ctx).1.length ≤ keep.room left.length right.length := by
  induction left, right, ctx using combine_induction ask with
  | nilLeft right ctx =>
      rw [combine_nil_left, length_allIf, Keeping.room, List.length_nil]
      split <;> omega
  | nilRight left ctx =>
      rw [combine_nil_right, length_allIf, Keeping.room, List.length_nil]
      split <;> split <;> omega
  | less l left r right ctx answer ih =>
      rw [combine_lt answer, length_consIf]
      exact Nat.le_trans (Nat.add_le_add_right ih _) (room_step keep _ _).1
  | greater l left r right ctx answer ih =>
      rw [combine_gt answer, length_consIf]
      exact Nat.le_trans (Nat.add_le_add_right ih _) (room_step keep _ _).2.1
  | same l left r right ctx answer ih =>
      rw [combine_eq answer, length_consIf]
      exact Nat.le_trans (Nat.add_le_add_right ih _) (room_step keep _ _).2.2

/-- An elem of the left list is in a pair or it is alone. -/
theorem length_intersection_add_difference :
    (combine ⟨false, false, true⟩ ask left right ctx).1.length +
      (combine ⟨true, false, false⟩ ask left right ctx).1.length = left.length := by
  induction left, right, ctx using combine_induction ask with
  | nilLeft right ctx => rw [combine_nil_left, combine_nil_left]; rfl
  | nilRight left ctx =>
      rw [combine_nil_right, combine_nil_right]
      exact Nat.zero_add _
  | less l left r right ctx answer ih =>
      rw [combine_lt answer, combine_lt answer, length_consIf, length_consIf, List.length_cons, ← ih]
      rfl
  | greater l left r right ctx answer ih =>
      rw [combine_gt answer, combine_gt answer, length_consIf, length_consIf, ← ih]
      rfl
  | same l left r right ctx answer ih =>
      rw [combine_eq answer, combine_eq answer, length_consIf, length_consIf, List.length_cons, ← ih]
      exact Nat.add_right_comm _ 1 _

/-- If nothing of the left list is alone, the pairs have all of it. -/
theorem intersection_of_difference_nil (none_ : (combine ⟨true, false, false⟩ ask left right ctx).1 = []) :
    (combine ⟨false, false, true⟩ ask left right ctx).1 = left := by
  induction left, right, ctx using combine_induction ask with
  | nilLeft right ctx =>
      rw [combine_nil_left]
      rfl
  | nilRight left ctx =>
      rw [combine_nil_right] at none_ ⊢
      exact none_.symm
  | less l left r right ctx answer ih =>
      rw [combine_lt answer] at none_
      exact absurd none_ (List.cons_ne_nil l _)
  | greater l left r right ctx answer ih =>
      rw [combine_gt answer] at none_ ⊢
      exact ih none_
  | same l left r right ctx answer ih =>
      rw [combine_eq answer] at none_ ⊢
      exact congrArg (l :: ·) (ih none_)

/-! ## On sorted lists -/

section Sorted

/-- The answers are the ranks of the two elems. -/
def Decides (ask : A -> A -> C -> Ordering × C) (le : A -> A -> Prop) : Prop :=
  forall l r ctx, ((ask l r ctx).1 = .lt <-> ¬ le r l) ∧ ((ask l r ctx).1 = .gt <-> ¬ le l r)

theorem Decides.alike_of_eq (decides : Decides ask le) (same : (ask l r ctx).1 = .eq) : le l r ∧ le r l := by
  have ⟨less, greater⟩ := decides l r ctx
  rw [same] at less greater
  refine ⟨?_, ?_⟩
  · by_contra not_
    exact nomatch greater.mpr not_
  · by_contra not_
    exact nomatch less.mpr not_

theorem consIf_sorted {kept : Bool} {rest : List A} (sorted : rest.Pairwise le) (first : forall y, y ∈ rest -> le x y) :
    (consIf kept x rest).Pairwise le := by
  unfold consIf
  split
  · exact List.pairwise_cons.mpr ⟨first, sorted⟩
  · exact sorted

theorem allIf_sorted {kept : Bool} {rest : List A} (sorted : rest.Pairwise le) : (allIf kept rest).Pairwise le := by
  unfold allIf
  split
  · exact sorted
  · exact List.Pairwise.nil

theorem combine_sorted (order : TotalPreorder le) (decides : Decides ask le) (sortedLeft : left.Pairwise le)
    (sortedRight : right.Pairwise le) : (combine keep ask left right ctx).1.Pairwise le := by
  induction left, right, ctx using combine_induction ask with
  | nilLeft right ctx =>
      rw [combine_nil_left]
      exact allIf_sorted sortedRight
  | nilRight left ctx =>
      rw [combine_nil_right]
      exact allIf_sorted sortedLeft
  | less l left r right ctx answer ih =>
      have ⟨leftFirst, leftRest⟩ := List.pairwise_cons.mp sortedLeft
      have ⟨rightFirst, _⟩ := List.pairwise_cons.mp sortedRight
      have before : le l r := order.of_not ((decides l r ctx).1.mp answer)
      rw [combine_lt answer]
      refine consIf_sorted (ih leftRest sortedRight) fun y member => ?_
      rcases mem_combine member with inLeft | inRight
      · exact leftFirst y inLeft
      · rcases List.mem_cons.mp inRight with rfl | later
        · exact before
        · exact order.trans before (rightFirst y later)
  | greater l left r right ctx answer ih =>
      have ⟨leftFirst, _⟩ := List.pairwise_cons.mp sortedLeft
      have ⟨rightFirst, rightRest⟩ := List.pairwise_cons.mp sortedRight
      have before : le r l := order.of_not ((decides l r ctx).2.mp answer)
      rw [combine_gt answer]
      refine consIf_sorted (ih sortedLeft rightRest) fun y member => ?_
      rcases mem_combine member with inLeft | inRight
      · rcases List.mem_cons.mp inLeft with rfl | later
        · exact before
        · exact order.trans before (leftFirst y later)
      · exact rightFirst y inRight
  | same l left r right ctx answer ih =>
      have ⟨leftFirst, leftRest⟩ := List.pairwise_cons.mp sortedLeft
      have ⟨rightFirst, rightRest⟩ := List.pairwise_cons.mp sortedRight
      rw [combine_eq answer]
      refine consIf_sorted (ih leftRest rightRest) fun y member => ?_
      rcases mem_combine member with inLeft | inRight
      · exact leftFirst y inLeft
      · exact order.trans (decides.alike_of_eq answer).1 (rightFirst y inRight)

/-- What is kept of one class: of its elems `many` in the left list and `few` in the right one. -/
def Keeping.ofClass (keep : Keeping) (many few : List A) : List A :=
  allIf keep.both (many.take few.length) ++ allIf keep.left (many.drop few.length) ++
    allIf keep.right (few.drop many.length)

theorem allIf_nil (kept : Bool) : allIf kept ([] : List A) = [] := ite_self _

theorem consIf_allIf {kept : Bool} {rest : List A} : consIf kept x (allIf kept rest) = allIf kept (x :: rest) := by
  cases kept with
  | false => rfl
  | true => rfl

theorem ofClass_nil_left (few : List A) : keep.ofClass [] few = allIf keep.right few := by
  rw [Keeping.ofClass, List.take_nil, List.drop_nil, allIf_nil, allIf_nil, List.length_nil, List.drop_zero]
  rfl

theorem ofClass_nil_right (many : List A) : keep.ofClass many [] = allIf keep.left many := by
  rw [Keeping.ofClass, List.length_nil, List.take_zero, List.drop_zero, List.drop_nil, allIf_nil, allIf_nil,
    List.append_nil]
  rfl

theorem ofClass_cons (many few : List A) :
    keep.ofClass (l :: many) (r :: few) = consIf keep.both l (keep.ofClass many few) := by
  unfold Keeping.ofClass
  rw [List.length_cons, List.length_cons, List.take_succ_cons, List.drop_succ_cons, List.drop_succ_cons,
    ← consIf_allIf]
  cases keep.both with
  | false => rfl
  | true => rfl

variable [DecidableRel le]

/-- Nothing that is behind `y` is alike to what is before it. -/
theorem filter_behind (order : TotalPreorder le) {y : A} {rest : List A} (sorted : (y :: rest).Pairwise le)
    (behind : ¬ le y l) (kind : alike le x l = true) : (y :: rest).filter (alike le x) = [] := by
  apply List.filter_eq_nil_iff.mpr
  intro other member same
  have above : le y other := by
    rcases List.mem_cons.mp member with rfl | later
    · exact order.refl other
    · exact (List.pairwise_cons.mp sorted).1 other later
  exact behind (order.trans above (order.trans (alike_iff.mp same).2 (alike_iff.mp kind).1))

theorem filter_consIf {kept : Bool} {rest : List A} : (consIf kept l rest).filter (alike le x) =
    if alike le x l = true then consIf kept l (rest.filter (alike le x)) else rest.filter (alike le x) := by
  unfold consIf
  cases kept with
  | false => simp only [Bool.false_eq_true, if_false, ite_self]
  | true => exact List.filter_cons

theorem filter_allIf {kept : Bool} {rest : List A} :
    (allIf kept rest).filter (alike le x) = allIf kept (rest.filter (alike le x)) := by
  cases kept with
  | false => rfl
  | true => rfl

/-- Of each class the walk keeps what the operation on multisets does. -/
theorem combine_class (order : TotalPreorder le) (decides : Decides ask le) (sortedLeft : left.Pairwise le)
    (sortedRight : right.Pairwise le) (x : A) :
    (combine keep ask left right ctx).1.filter (alike le x) =
      keep.ofClass (left.filter (alike le x)) (right.filter (alike le x)) := by
  induction left, right, ctx using combine_induction ask with
  | nilLeft right ctx => rw [combine_nil_left, filter_allIf, List.filter_nil, ofClass_nil_left]
  | nilRight left ctx => rw [combine_nil_right, filter_allIf, List.filter_nil, ofClass_nil_right]
  | less l left r right ctx answer ih =>
      have leftRest := (List.pairwise_cons.mp sortedLeft).2
      rw [combine_lt answer, filter_consIf, ih leftRest sortedRight]
      by_cases kind : alike le x l = true
      · rw [if_pos kind, List.filter_cons_of_pos kind,
          filter_behind order sortedRight ((decides l r ctx).1.mp answer) kind, ofClass_nil_right, ofClass_nil_right,
          consIf_allIf]
      · rw [if_neg kind, List.filter_cons_of_neg kind]
  | greater l left r right ctx answer ih =>
      have rightRest := (List.pairwise_cons.mp sortedRight).2
      rw [combine_gt answer, filter_consIf, ih sortedLeft rightRest]
      by_cases kind : alike le x r = true
      · rw [if_pos kind, List.filter_cons_of_pos kind,
          filter_behind order sortedLeft ((decides l r ctx).2.mp answer) kind, ofClass_nil_left, ofClass_nil_left,
          consIf_allIf]
      · rw [if_neg kind, List.filter_cons_of_neg kind]
  | same l left r right ctx answer ih =>
      have leftRest := (List.pairwise_cons.mp sortedLeft).2
      have rightRest := (List.pairwise_cons.mp sortedRight).2
      have ⟨lr, rl⟩ := decides.alike_of_eq answer
      rw [combine_eq answer, filter_consIf, ih leftRest rightRest]
      have kinds : alike le x r = true <-> alike le x l = true := by
        rw [alike_iff, alike_iff]
        exact ⟨fun both => ⟨order.trans both.1 rl, order.trans lr both.2⟩,
          fun both => ⟨order.trans both.1 lr, order.trans rl both.2⟩⟩
      by_cases kind : alike le x l = true
      · rw [if_pos kind, List.filter_cons_of_pos kind, List.filter_cons_of_pos (kinds.mpr kind),
          ofClass_cons]
      · rw [if_neg kind, List.filter_cons_of_neg kind, List.filter_cons_of_neg (fun yes => kind (kinds.mp yes))]

theorem eq_nil_iff_classes (order : TotalPreorder le) {list : List A} :
    list = [] <-> forall x, list.filter (alike le x) = [] := by
  constructor
  · rintro rfl x
    rfl
  · intro classes
    apply List.eq_nil_iff_forall_not_mem.mpr
    intro x member
    have inClass := List.mem_filter.mpr ⟨member, alike_iff.mpr ⟨order.refl x, order.refl x⟩⟩
    rw [classes x] at inClass
    exact absurd inClass List.not_mem_nil

/-- Nothing of the left list is left over when the right one has as many of each class. -/
theorem difference_eq_nil_iff (order : TotalPreorder le) (decides : Decides ask le) (sortedLeft : left.Pairwise le)
    (sortedRight : right.Pairwise le) : (combine ⟨true, false, false⟩ ask left right ctx).1 = [] <->
      forall x, (left.filter (alike le x)).length ≤ (right.filter (alike le x)).length := by
  rw [eq_nil_iff_classes order]
  refine forall_congr' fun x => ?_
  rw [combine_class order decides sortedLeft sortedRight, Keeping.ofClass]
  simp only [allIf, Bool.false_eq_true, if_false, if_true, List.nil_append, List.append_nil, List.drop_eq_nil_iff]

end Sorted

/-! ## Whether one list has all of another -/

/-- Whether every elem of the second list finds one of its own in the first, and the state left. -/
def includesBy (ask : A -> A -> C -> Ordering × C) : List A -> List A -> C -> Bool × C
  | _, [], ctx => (true, ctx)
  | [], _ :: _, ctx => (false, ctx)
  | u :: sup, s :: sub, ctx =>
      if (ask u s ctx).1 = .lt then
        includesBy ask sup (s :: sub) (ask u s ctx).2
      else if (ask u s (ask u s ctx).2).1 = .gt then
        (false, (ask u s (ask u s ctx).2).2)
      else
        includesBy ask sup sub (ask u s (ask u s ctx).2).2
termination_by sup sub => sup.length + sub.length

theorem includesBy_nil : includesBy ask left [] ctx = (true, ctx) := by
  rw [includesBy]

theorem includesBy_nil_cons : includesBy ask [] (r :: right) ctx = (false, ctx) := by
  rw [includesBy]

theorem includesBy_cons : includesBy ask (l :: left) (r :: right) ctx =
    if (ask l r ctx).1 = .lt then
      includesBy ask left (r :: right) (ask l r ctx).2
    else if (ask l r (ask l r ctx).2).1 = .gt then
      (false, (ask l r (ask l r ctx).2).2)
    else
      includesBy ask left right (ask l r (ask l r ctx).2).2 := by
  rw [includesBy]

/-- The walk that includes finds every elem when the difference has none. -/
theorem includesBy_iff_difference {other : C} (decides : Decides ask le) :
    (includesBy ask right left ctx).1 = true <-> (combine ⟨true, false, false⟩ ask left right other).1 = [] := by
  induction right, left, ctx using includesBy.induct ask generalizing other with
  | case1 right ctx =>
      rw [includesBy_nil, combine_nil_left]
      exact iff_of_true rfl rfl
  | case2 l left ctx =>
      rw [includesBy_nil_cons, combine_nil_right]
      exact iff_of_false Bool.false_ne_true (List.cons_ne_nil l left)
  | case3 r right l left ctx less ih =>
      have greater : (ask l r other).1 = .gt := (decides l r other).2.mpr ((decides r l ctx).1.mp less)
      rw [includesBy_cons, if_pos less, combine_gt greater]
      exact ih
  | case4 r right l left ctx notLess greater =>
      have less : (ask l r other).1 = .lt := (decides l r other).1.mpr ((decides r l _).2.mp greater)
      rw [includesBy_cons, if_neg notLess, if_pos greater, combine_lt less]
      exact iff_of_false Bool.false_ne_true (List.cons_ne_nil l _)
  | case5 r right l left ctx notLess notGreater ih =>
      have same : (ask l r other).1 = .eq := by
        cases answer : (ask l r other).1 with
        | lt => exact absurd ((decides r l _).2.mpr ((decides l r other).1.mp answer)) notGreater
        | gt => exact absurd ((decides r l ctx).1.mpr ((decides l r other).2.mp answer)) notLess
        | eq => rfl
      rw [includesBy_cons, if_neg notLess, if_neg notGreater, combine_eq same]
      exact ih

end Foundation
end TerseDsa
