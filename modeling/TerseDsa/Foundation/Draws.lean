import Mathlib.Data.Set.Card
import Mathlib.Data.Set.Function
import Mathlib.Data.Set.Card.Arithmetic
import Mathlib.Data.Finset.Sort
import Mathlib.Data.List.Nodup
import Mathlib.Data.List.Permutation
import Mathlib.Data.Nat.Factorial.Basic
import Mathlib.Order.Interval.Set.Nat
import Mathlib.Tactic.Common

namespace TerseDsa
namespace Foundation

/-!
# Selections by draws

A draw vector has one draw below `n`, one below `n - 1` and so on.  Whoever
takes the elem at each draw out of what is left gets every ordered selection
exactly once, in whatever order the others are left behind; and whoever goes
through the positions and takes one whenever its draw is below the number still
wanted gets every set of positions equally often.
-/

/-- Each draw is below one less than the one before it may be. -/
def Free : (n : Nat) -> (draws : List Nat) -> Prop
  | _, [] => True
  | n, k :: draws => k < n ∧ Free (n - 1) draws

/-- The vectors of `count` draws. -/
def drawVectors (n count : Nat) : Set (List Nat) := {draws | draws.length = count ∧ Free n draws}

/-- The vectors that start with a draw in `first` and go on with one in `rest`. -/
theorem ncard_cons (first : Set Nat) (rest : Set (List Nat)) :
    {draws | exists k ks, draws = k :: ks ∧ k ∈ first ∧ ks ∈ rest}.ncard = first.ncard * rest.ncard := by
  have image : {draws | exists k ks, draws = k :: ks ∧ k ∈ first ∧ ks ∈ rest} =
      (fun pair : Nat × List Nat => pair.1 :: pair.2) '' (first ×ˢ rest) := by
    ext draws
    constructor
    · rintro ⟨k, ks, rfl, inFirst, inRest⟩
      exact ⟨(k, ks), ⟨inFirst, inRest⟩, rfl⟩
    · rintro ⟨⟨k, ks⟩, ⟨inFirst, inRest⟩, rfl⟩
      exact ⟨k, ks, rfl, inFirst, inRest⟩
  rw [image, Set.ncard_image_of_injective, Set.ncard_prod]
  rintro ⟨k, ks⟩ ⟨k', ks'⟩ same
  injection same with sameFirst sameRest
  exact Prod.ext sameFirst sameRest

/-! ## Ordered selections -/

variable {A : Type} {pick : List A -> Nat -> Option (A × List A)} {elems sel sel' left left' : List A}
  {draws draws' : List Nat} {count n : Nat}

/-- A way to take out the elem at an index and close the gap. -/
def Picks (pick : List A -> Nat -> Option (A × List A)) : Prop := forall elems k, k < elems.length ->
  exists x rest, pick elems k = some (x, rest) ∧ elems[k]? = some x ∧ (x :: rest).Perm elems

/-- The elems that the draws take out, and what is left. -/
def select (pick : List A -> Nat -> Option (A × List A)) : (draws : List Nat) -> (elems : List A) ->
    Option (List A × List A)
  | [], elems => some ([], elems)
  | k :: draws, elems => do
      let (x, rest) ← pick elems k
      let (sel, left) ← select pick draws rest
      return (x :: sel, left)

/-- One elem is taken out, and then the others. -/
theorem select_cons {k : Nat} {x : A} {rest : List A} (picked : pick elems k = some (x, rest))
    (selected : select pick draws rest = some (sel, left)) :
    select pick (k :: draws) elems = some (x :: sel, left) := by
  rw [select, picked]
  dsimp only [Option.bind_eq_bind, Option.bind_some]
  rw [selected]
  rfl

theorem length_of_select (selected : select pick draws elems = some (sel, left)) : sel.length = draws.length := by
  induction draws generalizing elems sel left with
  | nil =>
      cases selected
      rfl
  | cons k draws ih =>
      rw [select, Option.bind_eq_bind, Option.bind_eq_some_iff] at selected
      rcases selected with ⟨⟨x, rest⟩, _, selected⟩
      dsimp only at selected
      rw [Option.bind_eq_bind, Option.bind_eq_some_iff] at selected
      rcases selected with ⟨⟨xs, leftRest⟩, selectedRest, same⟩
      cases same
      rw [List.length_cons, List.length_cons, ih selectedRest]

theorem exists_select (picks : Picks pick) (free : Free elems.length draws) :
    exists sel left, select pick draws elems = some (sel, left) ∧ sel.length = draws.length ∧
      (sel ++ left).Perm elems := by
  induction draws generalizing elems with
  | nil => exact ⟨[], elems, rfl, rfl, List.Perm.refl _⟩
  | cons k draws ih =>
      rcases picks elems k free.1 with ⟨x, rest, picked, _, perm⟩
      have fewer : elems.length - 1 = rest.length := by
        have total := perm.length_eq
        rw [List.length_cons] at total
        omega
      rcases ih (fewer ▸ free.2) with ⟨sel, left, selected, length, permRest⟩
      refine ⟨x :: sel, left, select_cons picked selected, ?_, ?_⟩
      · rw [List.length_cons, List.length_cons, length]
      · exact (permRest.cons x).trans perm

/-- The draws can be read off the selection. -/
theorem select_injective (picks : Picks pick) (nodup : elems.Nodup) (free : Free elems.length draws)
    (free' : Free elems.length draws') (selected : select pick draws elems = some (sel, left))
    (selected' : select pick draws' elems = some (sel, left')) : draws = draws' := by
  induction draws generalizing elems draws' sel with
  | nil =>
      cases draws' with
      | nil => rfl
      | cons k' draws' =>
          rcases exists_select picks free' with ⟨other, _, sameOther, lengthOther, _⟩
          rw [selected'] at sameOther
          cases sameOther
          have nothing : sel = [] := (Prod.mk.inj (Option.some.inj selected)).1.symm
          rw [nothing] at lengthOther
          cases lengthOther
  | cons k draws ih =>
      rcases picks elems k free.1 with ⟨x, rest, picked, at_, perm⟩
      have fewer : elems.length - 1 = rest.length := by
        have total := perm.length_eq
        rw [List.length_cons] at total
        omega
      have nodupRest : rest.Nodup := (List.nodup_cons.mp (perm.nodup_iff.mpr nodup)).2
      rcases exists_select picks (fewer ▸ free.2) with ⟨xs, leftRest, selectedRest, _, _⟩
      have whole := select_cons picked selectedRest
      rw [selected] at whole
      cases whole
      cases draws' with
      | nil => cases selected'
      | cons k' draws' =>
          rcases picks elems k' free'.1 with ⟨x', rest', picked', at', perm'⟩
          have fewer' : elems.length - 1 = rest'.length := by
            have total := perm'.length_eq
            rw [List.length_cons] at total
            omega
          rcases exists_select picks (fewer' ▸ free'.2) with ⟨xs', leftRest', selectedRest', _, _⟩
          have whole' := select_cons picked' selectedRest'
          rw [selected'] at whole'
          cases whole'
          -- an elem that occurs once is taken out by one draw only
          have sameDraw : k = k' := by
            rw [List.getElem?_eq_some_iff] at at_ at'
            rcases at_ with ⟨inside, here⟩
            rcases at' with ⟨inside', here'⟩
            exact (List.Nodup.getElem_inj_iff nodup).mp (here.trans here'.symm)
          subst sameDraw
          rw [picked] at picked'
          cases picked'
          rw [ih nodupRest (fewer ▸ free.2) (fewer ▸ free'.2) selectedRest selectedRest']

/-- Every selection is one of some draws. -/
theorem select_surjective (picks : Picks pick) (nodup : sel.Nodup) (sub : sel ⊆ elems) (nodupElems : elems.Nodup) :
    exists draws left, draws.length = sel.length ∧ Free elems.length draws ∧
      select pick draws elems = some (sel, left) := by
  induction sel generalizing elems with
  | nil => exact ⟨[], elems, rfl, trivial, rfl⟩
  | cons x sel ih =>
      have parts := List.nodup_cons.mp nodup
      rcases List.getElem_of_mem (sub List.mem_cons_self) with ⟨k, inside, here⟩
      rcases picks elems k inside with ⟨y, rest, picked, at_, perm⟩
      have same : y = x := by
        rw [List.getElem?_eq_getElem inside, here] at at_
        exact (Option.some.inj at_).symm
      subst same
      have fewer : elems.length - 1 = rest.length := by
        have total := perm.length_eq
        rw [List.length_cons] at total
        omega
      have subRest : sel ⊆ rest := by
        intro z inSel
        have inside := perm.mem_iff.mpr (sub (List.mem_cons_of_mem _ inSel))
        rcases List.mem_cons.mp inside with rfl | inRest
        · exact absurd inSel parts.1
        · exact inRest
      have nodupRest := (List.nodup_cons.mp (perm.nodup_iff.mpr nodupElems)).2
      rcases ih parts.2 subRest nodupRest with ⟨draws, left, length, free, selected⟩
      refine ⟨k :: draws, left, ?_, ⟨inside, fewer ▸ free⟩, select_cons picked selected⟩
      rw [List.length_cons, List.length_cons, length]

/-- All elems but one are drawn, and the last one is left: every arrangement comes up once. -/
theorem bijOn_arrange (picks : Picks pick) (nodup : elems.Nodup) {arrange : List Nat -> List A}
    (arranges : forall draws sel left, select pick draws elems = some (sel, left) ->
      arrange draws = left ++ sel.reverse) :
    Set.BijOn arrange (drawVectors elems.length (elems.length - 1)) {out | out.Perm elems} := by
  refine ⟨?_, ?_, ?_⟩
  · rintro draws ⟨_, free⟩
    rcases exists_select picks free with ⟨sel, left, selected, _, perm⟩
    rw [Set.mem_ofPred_eq, arranges draws sel left selected]
    exact (List.perm_append_comm.trans ((List.reverse_perm sel).append_right left)).trans perm
  · rintro draws ⟨length, free⟩ draws' ⟨length', free'⟩ same
    rcases exists_select picks free with ⟨sel, left, selected, size, perm⟩
    rcases exists_select picks free' with ⟨sel', left', selected', size', perm'⟩
    rw [arranges draws sel left selected, arranges draws' sel' left' selected'] at same
    have lengths : left.length = left'.length := by
      have total := perm.length_eq
      have total' := perm'.length_eq
      rw [List.length_append] at total total'
      omega
    have sameSel := List.reverse_injective (List.append_inj same lengths).2
    subst sameSel
    exact select_injective picks nodup free free' selected selected'
  · intro out perm
    cases out with
    | nil =>
        have none_ : elems = [] := perm.symm.eq_nil
        subst none_
        exact ⟨[], ⟨rfl, trivial⟩, arranges [] [] [] rfl⟩
    | cons first rest =>
        have nodupOut := perm.nodup_iff.mpr nodup
        have drawn : rest.reverse.Nodup := List.nodup_reverse.mpr (List.nodup_cons.mp nodupOut).2
        have inside : rest.reverse ⊆ elems := fun x member =>
          perm.mem_iff.mp (List.mem_cons_of_mem _ (List.mem_reverse.mp member))
        rcases select_surjective picks drawn inside nodup with ⟨draws, left, length, free, selected⟩
        have size := perm.length_eq
        rw [List.length_cons] at size
        rw [List.length_reverse] at length
        refine ⟨draws, ⟨by omega, free⟩, ?_⟩
        rw [arranges draws _ left selected, List.reverse_reverse]
        -- what is left is what was not drawn
        rcases exists_select picks free with ⟨_, _, again, _, permLeft⟩
        rw [selected] at again
        cases again
        have restPerm : (rest ++ left).Perm (rest ++ [first]) :=
          ((List.reverse_perm rest).symm.append_right left).trans
            (permLeft.trans (perm.symm.trans (List.perm_append_singleton first rest).symm))
        rw [List.perm_append_left_iff, List.perm_singleton] at restPerm
        rw [restPerm]
        rfl

/-- As many elems as there are draws: every ordered selection comes up once. -/
theorem bijOn_select (picks : Picks pick) (nodup : elems.Nodup) {chosen : List Nat -> List A}
    (chooses : forall draws sel left, draws.length = count -> select pick draws elems = some (sel, left) ->
      chosen draws = sel) :
    Set.BijOn chosen (drawVectors elems.length count) {sel | sel.length = count ∧ sel.Nodup ∧ sel ⊆ elems} := by
  refine ⟨?_, ?_, ?_⟩
  · rintro draws ⟨length, free⟩
    rcases exists_select picks free with ⟨sel, left, selected, size, perm⟩
    rw [chooses draws sel left length selected]
    refine ⟨size.trans length, ?_, fun x member => perm.mem_iff.mp (List.mem_append_left left member)⟩
    exact (List.nodup_append.mp (perm.nodup_iff.mpr nodup)).1
  · rintro draws ⟨length, free⟩ draws' ⟨length', free'⟩ same
    rcases exists_select picks free with ⟨sel, left, selected, _, _⟩
    rcases exists_select picks free' with ⟨sel', left', selected', _, _⟩
    rw [chooses draws sel left length selected, chooses draws' sel' left' length' selected'] at same
    subst same
    exact select_injective picks nodup free free' selected selected'
  · rintro sel ⟨size, nodupSel, inside⟩
    rcases select_surjective picks nodupSel inside nodup with ⟨draws, left, length, free, selected⟩
    exact ⟨draws, ⟨length.trans size, free⟩, chooses draws sel left (length.trans size) selected⟩

/-- The arrangements, as Mathlib lists them. -/
theorem arrangements_eq [DecidableEq A] (elems : List A) :
    {out : List A | out.Perm elems} = (elems.permutations.toFinset : Set (List A)) := by
  ext out
  rw [Set.mem_ofPred_eq, Finset.mem_coe, List.mem_toFinset, List.mem_permutations]

theorem finite_arrangements (elems : List A) : {out : List A | out.Perm elems}.Finite := by
  classical
  rw [arrangements_eq]
  exact Finset.finite_toSet _

/-- With elems that occur twice there are fewer. -/
theorem ncard_arrangements_le (elems : List A) : {out : List A | out.Perm elems}.ncard ≤ elems.length.factorial := by
  classical
  rw [arrangements_eq, Set.ncard_coe_finset, ← List.length_permutations]
  exact List.toFinset_card_le _

/-- How many arrangements there are. -/
theorem ncard_arrangements (nodup : elems.Nodup) : {out : List A | out.Perm elems}.ncard = elems.length.factorial := by
  classical
  rw [arrangements_eq, Set.ncard_coe_finset, List.toFinset_card_of_nodup (List.nodup_permutations elems nodup),
    List.length_permutations]

/-! ## Sets of positions -/

/-- The positions, counted from 0, whose draw is below the number still wanted. -/
def chosen : (want : Nat) -> (draws : List Nat) -> List Nat
  | _, [] => []
  | want, k :: draws =>
      if k < want then
        0 :: (chosen (want - 1) draws).map Nat.succ
      else
        (chosen want draws).map Nat.succ

theorem chosen_sorted (want : Nat) (draws : List Nat) : (chosen want draws).Pairwise (· < ·) := by
  induction draws generalizing want with
  | nil => exact List.Pairwise.nil
  | cons k draws ih =>
      have shifted : forall want, ((chosen want draws).map Nat.succ).Pairwise (· < ·) := by
        intro want
        rw [List.pairwise_map]
        exact (ih want).imp Nat.succ_lt_succ
      unfold chosen
      split
      · refine List.pairwise_cons.mpr ⟨?_, shifted _⟩
        intro position inside
        rcases List.mem_map.mp inside with ⟨earlier, _, rfl⟩
        exact Nat.succ_pos earlier
      · exact shifted _

theorem chosen_lt {want position : Nat} (inside : position ∈ chosen want draws) : position < draws.length := by
  induction draws generalizing want position with
  | nil => cases inside
  | cons k draws ih =>
      have shifted : forall want, position ∈ (chosen want draws).map Nat.succ -> position < draws.length + 1 := by
        intro want member
        rcases List.mem_map.mp member with ⟨earlier, there, rfl⟩
        exact Nat.succ_lt_succ (ih there)
      unfold chosen at inside
      rw [List.length_cons]
      split at inside
      · rcases List.mem_cons.mp inside with rfl | later
        · exact Nat.succ_pos _
        · exact shifted _ later
      · exact shifted _ inside

/-- Positions in order start with the first one or leave it out. -/
theorem sorted_cases {positions : List Nat} (sorted : positions.Pairwise (· < ·))
    (below : forall position, position ∈ positions -> position < n + 1) :
    exists later : List Nat, (positions = 0 :: later.map Nat.succ ∨ positions = later.map Nat.succ) ∧
      later.Pairwise (· < ·) ∧ forall position, position ∈ later -> position < n := by
  have shift : forall list : List Nat, (forall each, each ∈ list -> 0 < each ∧ each < n + 1) ->
      list.Pairwise (· < ·) -> exists later : List Nat, list = later.map Nat.succ ∧ later.Pairwise (· < ·) ∧
        forall position, position ∈ later -> position < n := by
    intro list within ordered
    have back : (list.map Nat.pred).map Nat.succ = list := by
      rw [List.map_map]
      conv_rhs => rw [← List.map_id list]
      apply List.map_congr_left
      intro each inside
      exact Nat.succ_pred_eq_of_pos (within each inside).1
    refine ⟨list.map Nat.pred, back.symm, ?_, ?_⟩
    · rw [← back, List.pairwise_map] at ordered
      exact ordered.imp Nat.lt_of_succ_lt_succ
    · intro position inside
      rcases List.mem_map.mp inside with ⟨each, there, rfl⟩
      have bounds := within each there
      rw [Nat.pred_eq_sub_one]
      omega
  cases positions with
  | nil => exact ⟨[], Or.inr rfl, List.Pairwise.nil, fun _ impossible => nomatch impossible⟩
  | cons position rest =>
      have parts := List.pairwise_cons.mp sorted
      cases position with
      | zero =>
          rcases shift rest (fun each inside => ⟨parts.1 each inside, below each (List.mem_cons_of_mem _ inside)⟩)
            parts.2 with ⟨later, rfl, kept⟩
          exact ⟨later, Or.inl rfl, kept⟩
      | succ position =>
          have within : forall each, each ∈ (position + 1) :: rest -> 0 < each ∧ each < n + 1 := by
            intro each inside
            refine ⟨?_, below each inside⟩
            rcases List.mem_cons.mp inside with rfl | behind
            · exact Nat.succ_pos _
            · exact Nat.lt_trans (Nat.succ_pos _) (parts.1 each behind)
          rcases shift _ within sorted with ⟨later, same, kept⟩
          exact ⟨later, Or.inr same, kept⟩

/-- The vectors that choose these positions. -/
def choosing (n want : Nat) (positions : List Nat) : Set (List Nat) :=
  {draws | draws ∈ drawVectors n n ∧ chosen want draws = positions}

/-- The first position is chosen by a draw below the number wanted. -/
theorem choosing_hit {want : Nat} {later : List Nat} (enough : want ≤ n) :
    choosing (n + 1) (want + 1) (0 :: later.map Nat.succ) =
      {draws | exists k ks, draws = k :: ks ∧ k ∈ Set.Iio (want + 1) ∧ ks ∈ choosing n want later} := by
  ext draws
  constructor
  · rintro ⟨⟨length, free⟩, same⟩
    cases draws with
    | nil => cases length
    | cons k ks =>
        unfold chosen at same
        by_cases hit : k < want + 1
        · rw [if_pos hit, Nat.add_sub_cancel] at same
          injection same with _ same
          exact ⟨k, ks, rfl, hit, ⟨Nat.succ.inj length, free.2⟩, List.map_injective_iff.mpr Nat.succ_injective same⟩
        · rw [if_neg hit] at same
          have inside : 0 ∈ (chosen (want + 1) ks).map Nat.succ := same ▸ List.mem_cons_self
          rcases List.mem_map.mp inside with ⟨_, _, impossible⟩
          cases impossible
  · rintro ⟨k, ks, rfl, hit, ⟨length, free⟩, same⟩
    have under : k < want + 1 := hit
    refine ⟨⟨by rw [List.length_cons, length], Nat.lt_of_lt_of_le under (Nat.succ_le_succ enough), free⟩, ?_⟩
    rw [chosen, if_pos under, Nat.add_sub_cancel, same]

theorem choosing_miss {want : Nat} {later : List Nat} :
    choosing (n + 1) want (later.map Nat.succ) =
      {draws | exists k ks, draws = k :: ks ∧ k ∈ Set.Ico want (n + 1) ∧ ks ∈ choosing n want later} := by
  ext draws
  constructor
  · rintro ⟨⟨length, free⟩, same⟩
    cases draws with
    | nil => cases length
    | cons k ks =>
        unfold chosen at same
        by_cases hit : k < want
        · rw [if_pos hit] at same
          have inside : 0 ∈ later.map Nat.succ := same ▸ List.mem_cons_self
          rcases List.mem_map.mp inside with ⟨_, _, impossible⟩
          cases impossible
        · rw [if_neg hit] at same
          exact ⟨k, ks, rfl, ⟨Nat.le_of_not_lt hit, free.1⟩, ⟨Nat.succ.inj length, free.2⟩,
            List.map_injective_iff.mpr Nat.succ_injective same⟩
  · rintro ⟨k, ks, rfl, ⟨miss, below⟩, ⟨length, free⟩, same⟩
    refine ⟨⟨by rw [List.length_cons, length], below, free⟩, ?_⟩
    rw [chosen, if_neg (Nat.not_lt.mpr miss), same]

/-- Positions in order below a bound are no more than that. -/
theorem length_le_of_sorted {positions : List Nat} (sorted : positions.Pairwise (· < ·))
    (below : forall position, position ∈ positions -> position < n) : positions.length ≤ n := by
  have distinct : positions.Nodup := sorted.imp Nat.ne_of_lt
  have counted := (List.subperm_of_subset distinct fun each inside => List.mem_range.mpr (below each inside)).length_le
  rwa [List.length_range] at counted

/-- Every set of positions is chosen by equally many draw vectors. -/
theorem ncard_choosing {want : Nat} {positions : List Nat} (sorted : positions.Pairwise (· < ·))
    (size : positions.length = want) (below : forall position, position ∈ positions -> position < n) :
    (choosing n want positions).ncard = want.factorial * (n - want).factorial := by
  induction n generalizing want positions with
  | zero =>
      have none_ : positions = [] := List.eq_nil_of_length_eq_zero (Nat.le_zero.mp (length_le_of_sorted sorted below))
      subst none_
      subst size
      have only : choosing 0 0 [] = {[]} := by
        ext draws
        constructor
        · rintro ⟨⟨length, _⟩, _⟩
          exact List.eq_nil_of_length_eq_zero length
        · rintro rfl
          exact ⟨⟨rfl, trivial⟩, rfl⟩
      rw [List.length_nil, only, Set.ncard_singleton]
      rfl
  | succ n ih =>
      rcases sorted_cases sorted below with ⟨later, rfl | rfl, sortedLater, belowLater⟩
      · rw [List.length_cons, List.length_map] at size
        subst size
        have enough := length_le_of_sorted sortedLater belowLater
        rw [choosing_hit enough, ncard_cons, Set.ncard_Iio_nat, ih sortedLater rfl belowLater,
          Nat.factorial_succ, Nat.add_sub_add_right, Nat.mul_assoc]
      · rw [List.length_map] at size
        subst size
        have enough := length_le_of_sorted sortedLater belowLater
        have more : n + 1 - later.length = (n - later.length) + 1 := Nat.succ_sub enough
        rw [choosing_miss, ncard_cons, Set.ncard_Ico_nat, ih sortedLater rfl belowLater, more,
          Nat.factorial_succ]
        exact Nat.mul_left_comm _ _ _

theorem ncard_chosen_set {want : Nat} {positions : Finset Nat} (size : positions.card = want)
    (below : positions ⊆ Finset.range n) :
    {draws | draws ∈ drawVectors n n ∧ (chosen want draws).toFinset = positions}.ncard =
      want.factorial * (n - want).factorial := by
  have ordered : positions.sort.Pairwise (· < ·) := (Finset.sortedLT_sort positions).pairwise
  have same : {draws | draws ∈ drawVectors n n ∧ (chosen want draws).toFinset = positions} =
      choosing n want positions.sort := by
    ext draws
    apply and_congr_right
    intro _
    have sorted := chosen_sorted want draws
    constructor
    · rintro rfl
      exact ((List.toFinset_sort (· ≤ ·) (sorted.imp Nat.ne_of_lt)).mpr (sorted.imp Nat.le_of_lt)).symm
    · intro listed
      rw [listed, Finset.sort_toFinset]
  rw [same]
  refine ncard_choosing ordered ((Finset.length_sort _).trans size) fun position inside => ?_
  exact Finset.mem_range.mp (below ((Finset.mem_sort _).mp inside))

end Foundation
end TerseDsa
