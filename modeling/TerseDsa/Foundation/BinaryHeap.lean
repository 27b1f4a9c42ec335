import TerseDsa.Foundation.Sorting
import Mathlib.Logic.Equiv.Basic
import Mathlib.Order.Bounds.Basic

namespace TerseDsa
namespace Foundation

/-!
# Binary heaps

The implicit tree over the natural numbers: the children of `i` are `2 * i + 1`
and `2 * i + 2`.  `key` gives what is at each place, and no key is behind the one
of its parent.  A sift repairs a tree in which one place may be wrong: `Sinking`
when the key there may be before the keys of its children, and `Rising` when it
may be behind the key of its parent.  Either sift moves the place by exchanging
two keys.
-/

namespace BinaryHeap

variable {B : Type} {le : B -> B -> Prop} {key other : Nat -> B} {first len hole best child idx : Nat}

/-- The parent of a place other than the root. -/
def parent (idx : Nat) : Nat := (idx - 1) / 2

/-- The left child; the right one follows it. -/
def left (idx : Nat) : Nat := 2 * idx + 1

theorem parent_lt (some_ : 0 < idx) : parent idx < idx := by
  unfold parent
  omega

theorem parent_left : parent (left idx) = idx := by
  unfold parent left
  omega

theorem parent_right : parent (left idx + 1) = idx := by
  unfold parent left
  omega

/-- A place has two children. -/
theorem parent_eq_iff (some_ : 0 < child) : parent child = idx <-> child = left idx ∨ child = left idx + 1 := by
  unfold parent left
  omega

/-- The keys from the place `first` on form heaps: what is at a child is not behind what is at
its parent. -/
def HeapFrom (le : B -> B -> Prop) (key : Nat -> B) (first len : Nat) : Prop :=
  forall child, 0 < child -> child < len -> first ≤ parent child -> le (key child) (key (parent child))

/-- The first `len` keys are a heap. -/
def Heap (le : B -> B -> Prop) (key : Nat -> B) (len : Nat) : Prop :=
  forall child, 0 < child -> child < len -> le (key child) (key (parent child))

theorem heap_iff : Heap le key len <-> HeapFrom le key 0 len :=
  forall_congr' fun _ => forall_congr' fun _ => forall_congr' fun _ => (imp_iff_right (Nat.zero_le _)).symm

namespace Heap

theorem shorter (heap : Heap le key len) (fewer : first ≤ len) : Heap le key first :=
  fun child some_ inside => heap child some_ (Nat.lt_of_lt_of_le inside fewer)

/-- No key of a heap is behind the one at its root. -/
theorem root (order : TotalPreorder le) (heap : Heap le key len) (inside : idx < len) : le (key idx) (key 0) := by
  induction idx using Nat.strongRecOn with
  | ind idx ih =>
      rcases Nat.eq_zero_or_pos idx with rfl | some_
      · exact order.refl _
      · have above := parent_lt some_
        exact order.trans (heap idx some_ inside) (ih _ above (above.trans inside))

theorem succ_iff (some_ : 0 < len) :
    Heap le key (len + 1) <-> Heap le key len ∧ le (key len) (key (parent len)) := by
  constructor
  · exact fun heap => ⟨heap.shorter (Nat.le_succ len), heap len some_ (Nat.lt_succ_self len)⟩
  · rintro ⟨heap, last⟩ child positive inside
    rcases Nat.lt_succ_iff_lt_or_eq.mp inside with before | rfl
    · exact heap child positive before
    · exact last

theorem short (few : len ≤ 1) : Heap le key len := fun child some_ inside => by omega

end Heap

/-! ## Towards the leaves -/

/-- Heaps from the place `first` on, but that the key at `hole` may be before its children's. -/
structure Sinking (le : B -> B -> Prop) (key : Nat -> B) (first len hole : Nat) : Prop where
  inside : first ≤ hole
  edges : forall child, 0 < child -> child < len -> first ≤ parent child -> parent child ≠ hole ->
    le (key child) (key (parent child))
  across : forall child, 0 < child -> child < len -> parent child = hole -> 0 < hole -> first ≤ parent hole ->
    le (key child) (key (parent hole))

namespace Sinking

/-- One more place is put on top of heaps. -/
theorem start (heaps : HeapFrom le key (hole + 1) len) : Sinking le key hole len hole where
  inside := Nat.le_refl hole
  edges child some_ inside below other := heaps child some_ inside (by omega)
  across child _ _ _ positive below := absurd (parent_lt positive) (Nat.not_lt.mpr below)

/-- The root of a heap is replaced. -/
theorem of_root (heap : Heap le key len) (same : forall idx, 0 < idx -> idx < len -> other idx = key idx) :
    Sinking le other 0 len 0 where
  inside := Nat.le_refl 0
  edges child some_ inside _ different := by
    have above := parent_lt some_
    rw [same child some_ inside, same _ (Nat.pos_of_ne_zero different) (above.trans inside)]
    exact heap child some_ inside
  across _ _ _ _ positive := absurd positive (Nat.lt_irrefl 0)

theorem done (sinking : Sinking le key first len hole)
    (settled : forall child, 0 < child -> child < len -> parent child = hole -> le (key child) (key hole)) :
    HeapFrom le key first len := by
  intro child some_ inside below
  by_cases here : parent child = hole
  · rw [here]
    exact settled child some_ inside here
  · exact sinking.edges child some_ inside below here

/-- The key at the hole goes down, in exchange for the greatest of its children's. -/
theorem step (sinking : Sinking le key first len hole) (some_ : 0 < best) (inside : best < len)
    (isChild : parent best = hole) (behind : le (key hole) (key best))
    (greatest : forall child, 0 < child -> child < len -> parent child = hole -> le (key child) (key best)) :
    Sinking le (key ∘ Equiv.swap hole best) first len best := by
  have below : hole < best := isChild ▸ parent_lt some_
  have atHole : (key ∘ Equiv.swap hole best) hole = key best := by
    rw [Function.comp_apply, Equiv.swap_apply_left]
  have atBest : (key ∘ Equiv.swap hole best) best = key hole := by
    rw [Function.comp_apply, Equiv.swap_apply_right]
  have elsewhere : forall {idx}, idx ≠ hole -> idx ≠ best -> (key ∘ Equiv.swap hole best) idx = key idx := by
    intro idx notHole notBest
    rw [Function.comp_apply, Equiv.swap_apply_of_ne_of_ne notHole notBest]
  refine ⟨sinking.inside.trans (Nat.le_of_lt below), ?_, ?_⟩
  · intro child positive within from_ different
    have above := parent_lt positive
    by_cases isBest : child = best
    · subst isBest
      rw [isChild, atHole, atBest]
      exact behind
    · by_cases isHole : child = hole
      · -- the edge above the hole: the greatest child was across it
        subst isHole
        rw [atHole, elsewhere (Nat.ne_of_lt above) different]
        exact sinking.across best some_ inside isChild positive from_
      · rw [elsewhere isHole isBest]
        by_cases upper : parent child = hole
        · rw [upper, atHole]
          exact greatest child positive within upper
        · rw [elsewhere upper different]
          exact sinking.edges child positive within from_ upper
  · intro child positive within upper _ _
    have above := parent_lt positive
    rw [isChild, atHole, elsewhere (by omega) (by omega), ← upper]
    exact sinking.edges child positive within (by have := sinking.inside; omega) (by omega)

end Sinking

/-! ## Towards the root -/

/-- A heap, but that the key at `hole` may be behind its parent's. -/
structure Rising (le : B -> B -> Prop) (key : Nat -> B) (len hole : Nat) : Prop where
  inside : hole < len
  edges : forall child, 0 < child -> child < len -> child ≠ hole -> le (key child) (key (parent child))
  across : forall child, 0 < child -> child < len -> parent child = hole -> 0 < hole ->
    le (key child) (key (parent hole))

namespace Rising

/-- One key more at the end. -/
theorem start (heap : Heap le key len) : Rising le key (len + 1) len where
  inside := Nat.lt_succ_self len
  edges child some_ inside different := heap child some_ (by omega)
  across child some_ inside here _ := by
    have above := parent_lt some_
    omega

theorem done (rising : Rising le key len hole) (settled : 0 < hole -> le (key hole) (key (parent hole))) :
    Heap le key len := by
  intro child some_ inside
  by_cases here : child = hole
  · subst here
    exact settled some_
  · exact rising.edges child some_ inside here

/-- The key at the hole goes up, in exchange for its parent's. -/
theorem step (order : TotalPreorder le) (rising : Rising le key len hole) (some_ : 0 < hole)
    (behind : le (key (parent hole)) (key hole)) :
    Rising le (key ∘ Equiv.swap (parent hole) hole) len (parent hole) := by
  have below := parent_lt some_
  have atParent : (key ∘ Equiv.swap (parent hole) hole) (parent hole) = key hole := by
    rw [Function.comp_apply, Equiv.swap_apply_left]
  have atHole : (key ∘ Equiv.swap (parent hole) hole) hole = key (parent hole) := by
    rw [Function.comp_apply, Equiv.swap_apply_right]
  have elsewhere : forall {idx}, idx ≠ parent hole -> idx ≠ hole ->
      (key ∘ Equiv.swap (parent hole) hole) idx = key idx := by
    intro idx notParent notHole
    rw [Function.comp_apply, Equiv.swap_apply_of_ne_of_ne notParent notHole]
  have inside := rising.inside
  refine ⟨below.trans inside, ?_, ?_⟩
  · intro child positive within different
    have above := parent_lt positive
    by_cases isHole : child = hole
    · subst isHole
      rw [atHole, atParent]
      exact behind
    · rw [elsewhere different isHole]
      by_cases sibling : parent child = parent hole
      · rw [sibling, atParent]
        have edge := rising.edges child positive within isHole
        rw [sibling] at edge
        exact order.trans edge behind
      · by_cases under : parent child = hole
        · rw [under, atHole]
          exact rising.across child positive within under some_
        · rw [elsewhere sibling under]
          exact rising.edges child positive within isHole
  · intro child positive within here up
    have above := parent_lt up
    have edge := rising.edges (parent hole) up (below.trans inside) (Nat.ne_of_lt below)
    have top : (key ∘ Equiv.swap (parent hole) hole) (parent (parent hole)) = key (parent (parent hole)) :=
      elsewhere (by omega) (by omega)
    rw [top]
    by_cases isHole : child = hole
    · subst isHole
      rw [atHole]
      exact edge
    · have beside := parent_lt positive
      have lower := rising.edges child positive within isHole
      rw [here] at lower
      rw [elsewhere (by omega) isHole]
      exact order.trans lower edge

end Rising

/-! ## The longest heap in front -/

/-- The first place whose key is behind its parent's ends the longest heap. -/
theorem isGreatest_heap (heap : Heap le key first) (within : first ≤ len)
    (stops : first = len ∨ 0 < first ∧ ¬ le (key first) (key (parent first))) :
    IsGreatest {count | count ≤ len ∧ Heap le key count} first := by
  refine ⟨⟨within, heap⟩, ?_⟩
  rintro count ⟨inside, longer⟩
  rcases stops with rfl | ⟨some_, breaks⟩
  · exact inside
  · exact Nat.le_of_not_lt fun more => breaks (longer first some_ more)

/-! ## Heaps in rows -/

/-- The ranks of elems that may be missing; what is missing is before all others. -/
def optionLe (le : B -> B -> Prop) : Option B -> Option B -> Prop
  | none, _ => True
  | some _, none => False
  | some low, some up => le low up

theorem optionLe_preorder (order : TotalPreorder le) : TotalPreorder (optionLe le) where
  total x y := by
    cases x with
    | none => exact Or.inl trivial
    | some x =>
        cases y with
        | none => exact Or.inr trivial
        | some y => exact order.total x y
  trans {x y z} first second := by
    cases x with
    | none => exact trivial
    | some x =>
        cases y with
        | none => exact False.elim first
        | some y =>
            cases z with
            | none => exact False.elim second
            | some z => exact order.trans first second

/-- The elems are a heap: none is behind its parent. -/
def RowHeap (le : B -> B -> Prop) (row : List B) : Prop :=
  forall child low up, 0 < child -> row[child]? = some low -> row[parent child]? = some up -> le low up

theorem rowHeap_take_iff {row : List B} (within : len ≤ row.length) :
    RowHeap le (row.take len) <-> Heap (optionLe le) (fun idx => row[idx]?) len := by
  constructor
  · intro heap child some_ inside
    have above := parent_lt some_
    have low : row[child]? = some row[child] := List.getElem?_eq_getElem _
    have up : row[parent child]? = some row[parent child] := List.getElem?_eq_getElem (by omega)
    dsimp only
    rw [low, up]
    exact heap child _ _ some_ (by rw [List.getElem?_take_of_lt inside, low])
      (by rw [List.getElem?_take_of_lt (above.trans inside), up])
  · intro heap child low up some_ atChild atParent
    have above := parent_lt some_
    have inside : child < len := by
      have small := (List.getElem?_eq_some_iff.mp atChild).1
      rw [List.length_take] at small
      omega
    rw [List.getElem?_take_of_lt inside] at atChild
    rw [List.getElem?_take_of_lt (above.trans inside)] at atParent
    have edge := heap child some_ inside
    dsimp only at edge
    rw [atChild, atParent] at edge
    exact edge

theorem rowHeap_iff {row : List B} : RowHeap le row <-> Heap (optionLe le) (fun idx => row[idx]?) row.length := by
  rw [← rowHeap_take_iff (Nat.le_refl _), List.take_length]

/-- No elem of a heap is behind the first one. -/
theorem RowHeap.top_greatest {row : List B} {top x : B} (order : TotalPreorder le) (heap : RowHeap le row)
    (atTop : row[0]? = some top) (member : x ∈ row) : le x top := by
  rcases List.mem_iff_getElem?.mp member with ⟨place, at_⟩
  have below := (rowHeap_iff.mp heap).root (optionLe_preorder order) (List.getElem?_eq_some_iff.mp at_).1
  rw [at_, atTop] at below
  exact below

end BinaryHeap
end Foundation
end TerseDsa
