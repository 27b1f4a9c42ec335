import TerseDsa.Foundation.Rearranging
import TerseDsa.Foundation.Sorting
import Mathlib.Data.List.Count

namespace TerseDsa
namespace Foundation

/-!
# Dividing a row

A row is divided around a pivot when what goes before the pivot, what is alike
to it and what goes behind it follow each other.  It is cut at a place when
nothing in front of the place goes behind anything from there on.  Between two
cuts a row may be put in order on its own, and what a sorted stretch between
two cuts has at a place is what the sorted row has there.
-/

variable {A : Type} {le : A -> A -> Prop} {row now sorted left mid right : List A} {pivot x y v : A}
  {lo lt gt hi lo' hi' place nth idx : Nat}

namespace Throughout

variable {property other : A -> Prop}

theorem narrow (all : Throughout lo hi row property) (from_ : lo ≤ lo') (upTo : hi' ≤ hi) :
    Throughout lo' hi' row property :=
  fun idx x above below at_ => all idx x (Nat.le_trans from_ above) (Nat.lt_of_lt_of_le below upTo) at_

/-- Only the elems of the stretch matter. -/
theorem congr (all : Throughout lo hi row property) (same : forall idx, lo ≤ idx -> idx < hi -> now[idx]? = row[idx]?) :
    Throughout lo hi now property :=
  fun idx x from_ upTo at_ => all idx x from_ upTo ((same idx from_ upTo).symm.trans at_)

theorem empty (none_ : hi ≤ lo) : Throughout lo hi row property := fun idx x from_ upTo _ => by omega

theorem snoc (all : Throughout lo hi row property) (last : forall x, row[hi]? = some x -> property x) :
    Throughout lo (hi + 1) row property := by
  intro idx x from_ upTo at_
  rcases Nat.lt_succ_iff_lt_or_eq.mp upTo with before | rfl
  · exact all idx x from_ before at_
  · exact last x at_

theorem cons (all : Throughout (lo + 1) hi row property) (first : forall x, row[lo]? = some x -> property x) :
    Throughout lo hi row property := by
  intro idx x from_ upTo at_
  rcases Nat.eq_or_lt_of_le from_ with rfl | behind
  · exact first x at_
  · exact all idx x behind upTo at_

theorem mem_take (all : Throughout 0 hi row property) (member : x ∈ row.take hi) : property x := by
  rcases List.mem_iff_getElem?.mp member with ⟨i, at_⟩
  have small := (List.getElem?_eq_some_iff.mp at_).1
  rw [List.length_take] at small
  have before : i < hi := by omega
  rw [List.getElem?_take_of_lt before] at at_
  exact all i x (Nat.zero_le i) before at_

theorem mem_drop (all : Throughout lo row.length row property) (member : x ∈ row.drop lo) : property x := by
  rcases List.mem_iff_getElem?.mp member with ⟨j, at_⟩
  rw [List.getElem?_drop] at at_
  exact all (lo + j) x (Nat.le_add_right _ _) (List.getElem?_eq_some_iff.mp at_).1 at_

end Throughout

/-! ## Sorted stretches -/

/-- The elems from `lo` on and before `hi` are in order. -/
def SortedIn (le : A -> A -> Prop) (lo hi : Nat) (row : List A) : Prop :=
  forall i j x y, lo ≤ i -> i < j -> j < hi -> row[i]? = some x -> row[j]? = some y -> le x y

theorem sortedIn_congr (sorted : SortedIn le lo hi row)
    (same : forall idx, lo ≤ idx -> idx < hi -> now[idx]? = row[idx]?) : SortedIn le lo hi now :=
  fun i j x y from_ before upTo first second => sorted i j x y from_ before upTo
    ((same i from_ (Nat.lt_trans before upTo)).symm.trans first) ((same j (by omega) upTo).symm.trans second)

theorem sortedIn_short (few : hi ≤ lo + 1) : SortedIn le lo hi row := fun i j x y from_ before upTo _ _ => by omega

theorem pairwise_short (few : row.length < 2) : row.Pairwise le := by
  rcases short_cases few with rfl | ⟨only, rfl⟩
  · exact List.Pairwise.nil
  · exact List.pairwise_singleton _ _

theorem sortedIn_part (sorted : mid.Pairwise le) :
    SortedIn le left.length (left.length + mid.length) (left ++ mid ++ right) := by
  intro i j x y from_ before upTo first second
  rw [List.append_assoc, List.getElem?_append_right (by omega), List.getElem?_append_left (by omega)] at first second
  rcases List.getElem?_eq_some_iff.mp first with ⟨inside, rfl⟩
  rcases List.getElem?_eq_some_iff.mp second with ⟨inside', rfl⟩
  exact List.pairwise_iff_getElem.mp sorted _ _ inside inside' (by omega)

theorem pairwise_of_sortedIn (sorted : SortedIn le 0 row.length row) : row.Pairwise le := by
  refine List.pairwise_iff_getElem.mpr fun i j first second before => ?_
  exact sorted i j _ _ (Nat.zero_le i) before second (List.getElem?_eq_getElem first) (List.getElem?_eq_getElem second)

/-! ## Around a pivot -/

/-- From `lo` on and before `hi`: what goes before the pivot, from `lt` up to `gt` what is alike to it, and
what goes behind it. -/
structure Divided (le : A -> A -> Prop) (pivot : A) (row : List A) (lo lt gt hi : Nat) : Prop where
  from_ : lo ≤ lt
  ordered : lt ≤ gt
  upTo : gt < hi
  below : Throughout lo lt row fun x => ¬ le pivot x
  among : Throughout lt (gt + 1) row fun x => le x pivot ∧ le pivot x
  above : Throughout (gt + 1) hi row fun x => ¬ le x pivot

namespace Divided

/-- In front of the elems behind the pivot nothing goes behind it. -/
theorem upTo_pivot (order : TotalPreorder le) (divided : Divided le pivot row lo lt gt hi) :
    Throughout lo (gt + 1) row fun x => le x pivot := by
  intro idx x from_ upTo at_
  rcases Nat.lt_or_ge idx lt with before | after
  · exact order.of_not (divided.below idx x from_ before at_)
  · exact (divided.among idx x after upTo at_).1

theorem from_pivot (order : TotalPreorder le) (divided : Divided le pivot row lo lt gt hi) :
    Throughout lt hi row fun x => le pivot x := by
  intro idx x from_ upTo at_
  rcases Nat.lt_or_ge idx (gt + 1) with before | after
  · exact (divided.among idx x from_ before at_).2
  · exact order.of_not (divided.above idx x after upTo at_)

theorem sorted_among (order : TotalPreorder le) (divided : Divided le pivot row lo lt gt hi) :
    SortedIn le lt (gt + 1) row :=
  fun i j x y from_ before upTo first second => order.trans (divided.among i x from_ (by omega) first).1
    (divided.among j y (by omega) upTo second).2

/-- Either side may be put in another order. -/
theorem rearranged_below (divided : Divided le pivot row lo lt gt hi) (rearranged : Rearranged lo lt row now)
    (within : hi ≤ row.length) : Divided le pivot now lo lt gt hi := by
  have ⟨from_, ordered, upTo, below, among, above⟩ := divided
  refine ⟨from_, ordered, upTo, rearranged.throughout (by omega) below, among.congr ?_, above.congr ?_⟩
  · exact fun idx reached _ => rearranged.outside idx (Or.inr reached)
  · exact fun idx reached _ => rearranged.outside idx (Or.inr (by omega))

theorem rearranged_above (divided : Divided le pivot row lo lt gt hi) (rearranged : Rearranged (gt + 1) hi row now)
    (within : hi ≤ row.length) : Divided le pivot now lo lt gt hi := by
  have ⟨from_, ordered, upTo, below, among, above⟩ := divided
  refine ⟨from_, ordered, upTo, below.congr ?_, among.congr ?_, rearranged.throughout within above⟩
  · exact fun idx _ before => rearranged.outside idx (Or.inl (by omega))
  · exact fun idx _ before => rearranged.outside idx (Or.inl before)

/-- With both sides sorted all of it is. -/
theorem inOrder (order : TotalPreorder le) (divided : Divided le pivot row lo lt gt hi)
    (sortedBelow : SortedIn le lo lt row) (sortedAbove : SortedIn le (gt + 1) hi row) : SortedIn le lo hi row := by
  intro i j x y from_ before upTo first second
  rcases Nat.lt_or_ge j lt with inBelow | pastBelow
  · exact sortedBelow i j x y from_ before inBelow first second
  · rcases Nat.lt_or_ge i (gt + 1) with upToPivot | inAbove
    · exact order.trans (divided.upTo_pivot order i x from_ upToPivot first)
        (divided.from_pivot order j y pastBelow upTo second)
    · exact sortedAbove i j x y inAbove before upTo first second

/-- One side is sorted after the other. -/
theorem inOrder_below_above (order : TotalPreorder le) (divided : Divided le pivot row lo lt gt hi)
    (within : hi ≤ row.length) {later : List A} (below : Rearranged lo lt row now) (above : Rearranged (gt + 1) hi now later)
    (sortedBelow : SortedIn le lo lt now) (sortedAbove : SortedIn le (gt + 1) hi later) : SortedIn le lo hi later := by
  have between := divided.rearranged_below below within
  have last := between.rearranged_above above (by rwa [below.length])
  have ordered := divided.ordered
  refine last.inOrder order (sortedIn_congr sortedBelow fun idx _ before => ?_) sortedAbove
  exact above.outside idx (Or.inl (by omega))

theorem inOrder_above_below (order : TotalPreorder le) (divided : Divided le pivot row lo lt gt hi)
    (within : hi ≤ row.length) {later : List A} (above : Rearranged (gt + 1) hi row now) (below : Rearranged lo lt now later)
    (sortedAbove : SortedIn le (gt + 1) hi now) (sortedBelow : SortedIn le lo lt later) : SortedIn le lo hi later := by
  have between := divided.rearranged_above above within
  have last := between.rearranged_below below (by rwa [above.length])
  have ordered := divided.ordered
  refine last.inOrder order sortedBelow (sortedIn_congr sortedAbove fun idx reached _ => ?_)
  exact below.outside idx (Or.inr (by omega))

end Divided

/-! ## Cuts -/

/-- Nothing in front of the place goes behind anything from there on. -/
def Cut (le : A -> A -> Prop) (place : Nat) (row : List A) : Prop :=
  forall i j x y, i < place -> place ≤ j -> row[i]? = some x -> row[j]? = some y -> le x y

namespace Cut

theorem start : Cut le 0 row := fun i _ _ _ before _ _ _ => absurd before (Nat.not_lt_zero i)

theorem end_ (all : row.length ≤ place) : Cut le place row := by
  intro i j x y _ from_ _ second
  rw [List.getElem?_eq_none (Nat.le_trans all from_)] at second
  cases second

/-- A stretch on one side of the cut is put in another order. -/
theorem rearranged (cut : Cut le place row) (rearranged : Rearranged lo hi row now) (apart : place ≤ lo ∨ hi ≤ place)
    (within : hi ≤ row.length) : Cut le place now := by
  have length := rearranged.length
  intro i j x y before from_ first second
  rcases apart with behind | inFront
  · rw [rearranged.outside i (Or.inl (by omega))] at first
    have all : Throughout place row.length row (le x) := fun j y reached _ at_ => cut i j x y before reached first at_
    have small := (List.getElem?_eq_some_iff.mp second).1
    exact (rearranged.widen behind within).throughout (Nat.le_refl _) all j y from_ (by omega) second
  · rw [rearranged.outside j (Or.inr (by omega))] at second
    have all : Throughout 0 place row fun x => le x y := fun i x _ reached at_ => cut i j x y reached from_ at_ second
    rcases Nat.lt_or_ge row.length place with past | reached
    · have small := (List.getElem?_eq_some_iff.mp second).1
      omega
    · exact (rearranged.widen (Nat.zero_le _) inFront).throughout reached all i x (Nat.zero_le i) before first

theorem le_of_mem (cut : Cut le place row) (inFront : x ∈ row.take place) (behind : y ∈ row.drop place) : le x y := by
  have fromHere : forall i x, i < place -> row[i]? = some x -> le x y := by
    intro i x before first
    have all : Throughout place row.length row (le x) := fun j y reached _ second => cut i j x y before reached first second
    exact all.mem_drop behind
  have all : Throughout 0 place row fun x => le x y := fun i x _ before first => fromHere i x before first
  exact all.mem_take inFront

end Cut

/-- A pivot between two cuts makes a cut on either side of what is alike to it. -/
theorem Divided.cut_lt (order : TotalPreorder le) (divided : Divided le pivot row lo lt gt hi) (front : Cut le lo row)
    (back : Cut le hi row) : Cut le lt row := by
  have ⟨from_, ordered, upTo, below, _, _⟩ := divided
  intro i j x y before reached first second
  rcases Nat.lt_or_ge i lo with outside | inside
  · exact front i j x y outside (by omega) first second
  · rcases Nat.lt_or_ge j hi with within | past
    · exact order.trans (order.of_not (below i x inside before first))
        (divided.from_pivot order j y reached within second)
    · exact back i j x y (by omega) past first second

theorem Divided.cut_gt (order : TotalPreorder le) (divided : Divided le pivot row lo lt gt hi) (front : Cut le lo row)
    (back : Cut le hi row) : Cut le (gt + 1) row := by
  have ⟨from_, ordered, upTo, _, _, above⟩ := divided
  intro i j x y before reached first second
  rcases Nat.lt_or_ge i lo with outside | inside
  · exact front i j x y outside (by omega) first second
  · rcases Nat.lt_or_ge j hi with within | past
    · exact order.trans (divided.upTo_pivot order i x inside before first)
        (order.of_not (above j y reached within second))
    · exact back i j x y (by omega) past first second

/-! ## The elem at a place -/

/-- Nothing before the place goes behind the elem there, and nothing after it before it. -/
def Selects (le : A -> A -> Prop) (nth : Nat) (row : List A) : Prop :=
  forall v, row[nth]? = some v ->
    (Throughout 0 nth row fun x => le x v) ∧ Throughout (nth + 1) row.length row fun y => le v y

/-- A sorted stretch between two cuts has its elems where they belong. -/
theorem selects_of_sortedIn (sorted : SortedIn le lo hi row) (front : Cut le lo row) (back : Cut le hi row)
    (from_ : lo ≤ nth) (upTo : nth < hi) : Selects le nth row := by
  intro v here
  constructor
  · intro i x _ before at_
    rcases Nat.lt_or_ge i lo with outside | inside
    · exact front i nth x v outside from_ at_ here
    · exact sorted i nth x v inside before upTo at_ here
  · intro j y behind _ at_
    rcases Nat.lt_or_ge j hi with inside | outside
    · exact sorted nth j v y from_ behind inside here at_
    · exact back nth j v y upTo outside here at_

/-- Everything before the place is kept apart from what follows by the elem there. -/
theorem Selects.cut (order : TotalPreorder le) (selects : Selects le nth row) (inside : nth < row.length) :
    Cut le nth row := by
  have ⟨before, after⟩ := selects row[nth] (List.getElem?_eq_getElem inside)
  intro i j x y inFront behind first second
  have here := before i x (Nat.zero_le i) inFront first
  rcases Nat.eq_or_lt_of_le behind with rfl | later
  · rw [List.getElem?_eq_getElem inside, Option.some_inj] at second
    exact second ▸ here
  · exact order.trans here (after j y later (List.getElem?_eq_some_iff.mp second).1 second)

/-- How many elems have a property that no elem from the place on has. -/
theorem countP_le {property : A -> Bool} (none_ : Throughout place row.length row fun x => property x = false) :
    row.countP property ≤ place := by
  have split : row.countP property = (row.take place).countP property + (row.drop place).countP property := by
    rw [← List.countP_append, List.take_append_drop]
  have behind : (row.drop place).countP property = 0 := by
    refine List.countP_eq_zero.mpr fun x member yes => ?_
    exact Bool.false_ne_true ((none_.mem_drop member).symm.trans yes)
  have inFront : (row.take place).countP property ≤ (row.take place).length := List.countP_le_length
  rw [List.length_take] at inFront
  omega

/-- How many elems have a property that all elems before the place have. -/
theorem le_countP {property : A -> Bool} (within : place ≤ row.length)
    (all : Throughout 0 place row fun x => property x = true) : place ≤ row.countP property := by
  have split : row.countP property = (row.take place).countP property + (row.drop place).countP property := by
    rw [← List.countP_append, List.take_append_drop]
  have inFront : (row.take place).countP property = (row.take place).length := by
    exact List.countP_eq_length.mpr fun x member => all.mem_take member
  rw [List.length_take] at inFront
  omega

/-- Between two rows of the same elems: what is selected is not behind what is at that place of the other
row, if that is selected there. -/
theorem Selects.le_of_perm [DecidableRel le] (order : TotalPreorder le) (selects : Selects le nth row)
    (others : Selects le nth sorted) (perm : sorted.Perm row) (here : row[nth]? = some v)
    (there : sorted[nth]? = some y) : le v y := by
  by_contra behind
  -- the elems before `v` are at most `nth`, but those up to `y` in the other row are all before `v`
  have small := (List.getElem?_eq_some_iff.mp there).1
  have few : row.countP (fun x => decide ¬ le v x) ≤ nth := by
    refine countP_le fun idx x from_ upTo at_ => ?_
    have above : le v x := by
      rcases Nat.eq_or_lt_of_le from_ with rfl | later
      · rw [here, Option.some_inj] at at_
        exact at_ ▸ order.refl v
      · exact (selects v here).2 idx x later upTo at_
    exact decide_eq_false (not_not_intro above)
  have many : nth + 1 ≤ sorted.countP (fun x => decide ¬ le v x) := by
    refine le_countP small fun idx x _ upTo at_ => ?_
    have upToThere : le x y := by
      rcases Nat.lt_succ_iff_lt_or_eq.mp upTo with before | rfl
      · exact (others y there).1 idx x (Nat.zero_le idx) before at_
      · rw [there, Option.some_inj] at at_
        exact at_ ▸ order.refl y
    exact decide_eq_true fun le => behind (order.trans le upToThere)
  rw [perm.countP_eq] at many
  omega

/-- What is selected is alike to what the sorted row has at that place. -/
theorem Selects.alike_sorted [DecidableRel le] (order : TotalPreorder le) (selects : Selects le nth row)
    (perm : sorted.Perm row) (inOrder : sorted.Pairwise le) (here : row[nth]? = some v)
    (there : sorted[nth]? = some y) : le v y ∧ le y v := by
  have whole : SortedIn le 0 sorted.length sorted := by
    have parts : SortedIn le ([] : List A).length (([] : List A).length + sorted.length) ([] ++ sorted ++ []) :=
      sortedIn_part inOrder
    rwa [List.nil_append, List.append_nil, List.length_nil, Nat.zero_add] at parts
  have others : Selects le nth sorted := selects_of_sortedIn whole Cut.start (Cut.end_ (Nat.le_refl _)) (Nat.zero_le nth)
    (List.getElem?_eq_some_iff.mp there).1
  exact ⟨selects.le_of_perm order others perm here there, others.le_of_perm order selects perm.symm there here⟩

end Foundation
end TerseDsa
