import TerseDsa.Foundation.Sorting
import TerseDsa.Foundation.Lexicographic
import Mathlib.Data.List.Lex
import Mathlib.Order.Antisymmetrization

namespace TerseDsa
namespace Foundation

/-!
# Lexicographic succession

The rearrangements of a list, in lexicographic order.  A list that falls from
some place on has a next rearrangement, got by changing the last elem that is
below one behind it for the least such and turning the rest around.  Elems that
are only ranked are compared by their ranks.
-/

section Linear

variable {A : Type} [LinearOrder A] {list other front hi lo : List A} {x m : A}

/-- The rising list is the least rearrangement. -/
theorem not_lt_rising (rising : list.Pairwise (· ≤ ·)) (perm : other.Perm list) : ¬ other < list := by
  induction list generalizing other with
  | nil =>
      rw [perm.eq_nil]
      exact List.not_lt_nil []
  | cons a list ih =>
      cases other with
      | nil => exact absurd perm.symm.eq_nil (List.cons_ne_nil _ _)
      | cons b other =>
          have parts := List.pairwise_cons.mp rising
          have least : a ≤ b := by
            rcases List.mem_cons.mp (perm.mem_iff.mp List.mem_cons_self) with rfl | behind
            · exact le_refl b
            · exact parts.1 b behind
          rw [List.cons_lt_cons_iff]
          rintro (less | ⟨rfl, below⟩)
          · exact not_lt_of_ge least less
          · exact ih parts.2 ((List.perm_cons b).mp perm) below

/-- The falling list is the greatest. -/
theorem not_falling_lt (falling : list.Pairwise (· ≥ ·)) (perm : other.Perm list) : ¬ list < other := by
  induction list generalizing other with
  | nil =>
      rw [perm.eq_nil]
      exact List.not_lt_nil []
  | cons a list ih =>
      cases other with
      | nil => exact absurd perm.symm.eq_nil (List.cons_ne_nil _ _)
      | cons b other =>
          have parts := List.pairwise_cons.mp falling
          have most : b ≤ a := by
            rcases List.mem_cons.mp (perm.mem_iff.mp List.mem_cons_self) with rfl | behind
            · exact le_refl b
            · exact parts.1 b behind
          rw [List.cons_lt_cons_iff]
          rintro (less | ⟨rfl, above⟩)
          · exact not_lt_of_ge most less
          · exact ih parts.2 ((List.perm_cons a).mp perm) above

/-- The next rearrangement is above the list. -/
theorem lt_next (up : x < m) (front hi lo : List A) :
    front ++ x :: (hi ++ m :: lo) < front ++ m :: (hi ++ x :: lo).reverse := by
  induction front with
  | nil => exact List.cons_lt_cons_iff.mpr (Or.inl up)
  | cons a front ih => exact List.cons_lt_cons_iff.mpr (Or.inr ⟨rfl, ih⟩)

theorem falling_swap (falling : (hi ++ m :: lo).Pairwise (· ≥ ·)) (up : x < m) (low : forall y, y ∈ lo -> y ≤ x) :
    (hi ++ x :: lo).Pairwise (· ≥ ·) := by
  rw [List.pairwise_append, List.pairwise_cons] at falling ⊢
  refine ⟨falling.1, ⟨low, falling.2.1.2⟩, fun a inHi b inRest => ?_⟩
  rcases List.mem_cons.mp inRest with rfl | inLo
  · exact le_trans (le_of_lt up) (falling.2.2 a inHi m List.mem_cons_self)
  · exact falling.2.2 a inHi b (List.mem_cons_of_mem _ inLo)

/-- And nothing lies between. -/
theorem not_lt_next (falling : (hi ++ m :: lo).Pairwise (· ≥ ·)) (up : x < m) (low : forall y, y ∈ lo -> y ≤ x)
    (perm : other.Perm (front ++ x :: (hi ++ m :: lo))) (above : front ++ x :: (hi ++ m :: lo) < other) :
    ¬ other < front ++ m :: (hi ++ x :: lo).reverse := by
  induction front generalizing other with
  | nil =>
      rw [List.nil_append] at perm above ⊢
      cases other with
      | nil => exact absurd perm.symm.eq_nil (List.cons_ne_nil _ _)
      | cons b other =>
          rw [List.cons_lt_cons_iff] at above ⊢
          rcases above with rises | ⟨rfl, above⟩
          · -- the first elem is one of those behind, and above `x`
            have behind : b ∈ hi ++ m :: lo := by
              rcases List.mem_cons.mp (perm.mem_iff.mp List.mem_cons_self) with rfl | behind
              · exact absurd rises (lt_irrefl b)
              · exact behind
            have least : m ≤ b := by
              rcases List.mem_append.mp behind with inHi | inRest
              · exact (List.pairwise_append.mp falling).2.2 b inHi m List.mem_cons_self
              · rcases List.mem_cons.mp inRest with rfl | inLo
                · exact le_refl b
                · exact absurd rises (not_lt_of_ge (low b inLo))
            rintro (less | ⟨rfl, below⟩)
            · exact not_lt_of_ge least less
            · have swapped : (b :: other).Perm (b :: (hi ++ x :: lo)) := by
                refine perm.trans ((List.perm_middle.cons x).trans ?_)
                exact (List.Perm.swap b x _).trans (List.perm_middle.symm.cons b)
              have rest := ((List.perm_cons b).mp swapped).trans (List.reverse_perm _).symm
              exact not_lt_rising (List.pairwise_reverse.mpr (falling_swap falling up low)) rest below
          · exact absurd above (not_falling_lt falling ((List.perm_cons x).mp perm))
  | cons a front ih =>
      cases other with
      | nil => exact absurd perm.symm.eq_nil (List.cons_ne_nil _ _)
      | cons b other =>
          rw [List.cons_append, List.cons_lt_cons_iff] at above
          rw [List.cons_append, List.cons_lt_cons_iff]
          rcases above with rises | ⟨rfl, above⟩
          · rintro (falls | ⟨rfl, _⟩)
            · exact lt_asymm rises falls
            · exact lt_irrefl b rises
          · rintro (less | ⟨_, below⟩)
            · exact lt_irrefl a less
            · exact ih ((List.perm_cons a).mp perm) above below

end Linear

/-! ## Lists compared by a comparator -/

/-- The comparator compares ranks. -/
def Ranks {A Rank : Type} [LinearOrder Rank] (order : A -> A -> Int) (rank : A -> Rank) : Prop :=
  forall x y, (order x y < 0 <-> rank x < rank y) ∧ (order x y = 0 <-> rank x = rank y)

section Compare

variable {A Rank : Type} [LinearOrder Rank] {order : A -> A -> Int} {rank : A -> Rank} {left right : List A}

theorem lexCompare_lt_iff (ranks : Ranks order rank) (length : left.length = right.length) :
    lexCompare order left right < 0 <-> left.map rank < right.map rank := by
  induction left generalizing right with
  | nil =>
      rw [List.eq_nil_of_length_eq_zero length.symm]
      exact iff_of_false (Int.lt_irrefl 0) (List.not_lt_nil [])
  | cons a left ih =>
      cases right with
      | nil => cases length
      | cons b right =>
          rw [lexCompare, List.map_cons, List.map_cons, List.cons_lt_cons_iff, ← (ranks a b).1, ← (ranks a b).2]
          by_cases same : order a b = 0
          · rw [if_pos same, ih (Nat.succ.inj length), same]
            simp only [Int.lt_irrefl, false_or, true_and]
          · rw [if_neg same]
            by_cases less : order a b < 0
            · rw [if_pos less]
              exact iff_of_true (by decide) (Or.inl less)
            · rw [if_neg less]
              exact iff_of_false (by decide) fun above => above.elim less fun tie => same tie.1

/-- Lists of one length are compared backwards by the turned comparator. -/
theorem lexCompare_turned (length : left.length = right.length) :
    lexCompare (fun x y => order y x) left right = lexCompare order right left := by
  induction left generalizing right with
  | nil => rw [List.eq_nil_of_length_eq_zero length.symm]; rfl
  | cons a left ih =>
      cases right with
      | nil => cases length
      | cons b right => rw [lexCompare, lexCompare, ih (Nat.succ.inj length)]

end Compare

/-! ## Ranks -/

/-- The elems of a total preorder have ranks that are linearly ordered. -/
theorem TotalPreorder.exists_rank {A : Type} {le : A -> A -> Prop} (order : TotalPreorder le) :
    exists (Rank : Type) (_ : LinearOrder Rank) (rank : A -> Rank), forall x y, le x y <-> rank x ≤ rank y := by
  classical
  let preorder : Preorder A := { le := le, le_refl := order.refl, le_trans := fun _ _ _ => order.trans }
  have total : Std.Total fun x y : A => x ≤ y := ⟨order.total⟩
  exact ⟨Antisymmetrization A (· ≤ ·), inferInstance, toAntisymmetrization (· ≤ ·), fun _ _ => Iff.rfl⟩

end Foundation
end TerseDsa
