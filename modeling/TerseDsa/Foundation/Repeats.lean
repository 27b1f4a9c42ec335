import TerseDsa.Foundation.Lexicographic
import Mathlib.Data.List.Destutter
import Mathlib.Data.List.SplitBy

namespace TerseDsa
namespace Foundation

/-!
# Rows without repeats

`List.destutter` keeps the first elem of a row and then each one that differs
from the one kept last.  For an equivalence that is the first elem of every
run of equal ones, and in a sorted row it is one elem of every class.
-/

variable {A : Type} {same : A -> A -> Bool} {rest run elems : List A} {last x : A}

/-- The row with each elem dropped that is equal to the one kept last. -/
def distinct (same : A -> A -> Bool) (elems : List A) : List A := elems.destutter fun x y => same x y = false

theorem destutter'_differ (differ : same last x = false) :
    (x :: rest).destutter' (fun x y => same x y = false) last =
      last :: rest.destutter' (fun x y => same x y = false) x := if_pos differ

theorem destutter'_equal (equal : same last x = true) :
    (x :: rest).destutter' (fun x y => same x y = false) last =
      rest.destutter' (fun x y => same x y = false) last := if_neg (ne_false_of_eq_true equal)

/-- Elems equal to the one kept last are dropped. -/
theorem destutter'_append (equal : forall x, x ∈ run -> same last x = true) :
    (run ++ rest).destutter' (fun x y => same x y = false) last =
      rest.destutter' (fun x y => same x y = false) last := by
  induction run with
  | nil => rfl
  | cons x run ih =>
      rw [List.cons_append, destutter'_equal (equal x List.mem_cons_self)]
      exact ih fun y member => equal y (List.mem_cons_of_mem x member)

/-- Each elem has an equal one that is kept. -/
theorem exists_mem_destutter' (refl : forall x, same x x = true) (member : x ∈ last :: rest) :
    exists y, y ∈ rest.destutter' (fun x y => same x y = false) last ∧ same y x = true := by
  induction rest generalizing last with
  | nil =>
      rw [List.mem_singleton] at member
      exact ⟨last, List.mem_destutter' _ _ _, member ▸ refl last⟩
  | cons h rest ih =>
      cases answer : same last h with
      | false =>
          rw [destutter'_differ answer]
          rcases List.mem_cons.mp member with rfl | behind
          · exact ⟨_, List.mem_cons_self, refl _⟩
          · rcases ih behind with ⟨y, kept, equal⟩
            exact ⟨y, List.mem_cons_of_mem last kept, equal⟩
      | true =>
          rw [destutter'_equal answer]
          rcases List.mem_cons.mp member with rfl | behind
          · exact ih List.mem_cons_self
          · rcases List.mem_cons.mp behind with rfl | later
            · exact ⟨last, List.mem_destutter' _ _ _, answer⟩
            · exact ih (List.mem_cons_of_mem last later)

theorem exists_mem_distinct (refl : forall x, same x x = true) (member : x ∈ elems) :
    exists y, y ∈ distinct same elems ∧ same y x = true := by
  cases elems with
  | nil => cases member
  | cons first rest => exact exists_mem_destutter' refl member

theorem distinct_sublist : (distinct same elems).Sublist elems := List.destutter_sublist _ _

/-! ## Runs -/

section Runs

variable (equivalence : Equivalence fun x y => same x y = true)

include equivalence

/-- In a run every elem is equal to the first one. -/
theorem equal_of_chain (chain : (last :: run).IsChain fun x y => same x y = true) :
    forall x, x ∈ run -> same last x = true := by
  induction run generalizing last with
  | nil => exact fun x member => by cases member
  | cons h run ih =>
      rw [List.isChain_cons_cons] at chain
      intro x member
      rcases List.mem_cons.mp member with rfl | behind
      · exact chain.1
      · exact equivalence.trans chain.1 (ih chain.2 x behind)

/-- Of a row cut into runs the first elem of each is kept. -/
theorem distinct_flatten {runs : List (List A)} (some_ : [] ∉ runs)
    (inner : forall run, run ∈ runs -> run.IsChain fun x y => same x y = true)
    (outer : runs.IsChain fun before behind => exists hb hh, same (before.getLast hb) (behind.head hh) = false) :
    distinct same runs.flatten = runs.filterMap List.head? := by
  have kept : forall (last : A) (run : List A) (runs : List (List A)), [] ∉ runs ->
      (forall other, other ∈ (last :: run) :: runs -> other.IsChain fun x y => same x y = true) ->
      ((last :: run) :: runs).IsChain
        (fun before behind => exists hb hh, same (before.getLast hb) (behind.head hh) = false) ->
      (run ++ runs.flatten).destutter' (fun x y => same x y = false) last = last :: runs.filterMap List.head? := by
    intro last run runs
    induction runs generalizing last run with
    | nil =>
        intro _ inner _
        rw [destutter'_append (equal_of_chain equivalence (inner _ List.mem_cons_self))]
        rfl
    | cons next runs ih =>
        intro some_ inner outer
        have equal := equal_of_chain equivalence (inner _ List.mem_cons_self)
        rw [destutter'_append equal]
        cases next with
        | nil => exact absurd List.mem_cons_self some_
        | cons h more =>
            rw [List.isChain_cons_cons] at outer
            rcases outer with ⟨⟨hb, hh, apart⟩, outer⟩
            -- the last elem of the run is equal to its first, so that one differs from the next run's too
            have differ : same last h = false := by
              by_contra same_
              have first := eq_true_of_ne_false same_
              have here : same last ((last :: run).getLast hb) = true := by
                rcases List.mem_cons.mp (List.getLast_mem hb) with ends | behind
                · rw [ends]
                  exact equivalence.refl last
                · exact equal _ behind
              have across := equivalence.trans (equivalence.symm here) first
              rw [List.head_cons] at apart
              rw [apart] at across
              cases across
            rw [List.flatten_cons, List.cons_append, destutter'_differ differ,
              ih h more (fun member => some_ (List.mem_cons_of_mem _ member))
                (fun other member => inner other (List.mem_cons_of_mem _ member)) outer]
            rfl
  cases runs with
  | nil => rfl
  | cons first runs =>
      cases first with
      | nil => exact absurd List.mem_cons_self some_
      | cons last run =>
          exact kept last run runs (fun member => some_ (List.mem_cons_of_mem _ member)) inner outer

/-- The first elem of every maximal run. -/
theorem distinct_eq_heads : distinct same elems = (elems.splitBy same).filterMap List.head? := by
  have cut := distinct_flatten equivalence (List.nil_notMem_splitBy same elems)
    (fun run member => List.isChain_of_mem_splitBy member) (List.isChain_getLast_head_splitBy same elems)
  rwa [List.flatten_splitBy] at cut

end Runs

/-! ## Sorted rows -/

/-- Of a sorted row no two elems that tie are kept. -/
theorem pairwise_distinct {order : A -> A -> Int} (orders : SignOrder order)
    (ties : forall x y, same x y = decide (order x y = 0)) (sorted : elems.Pairwise fun x y => order x y ≤ 0) :
    (distinct same elems).Pairwise fun x y => same x y = false := by
  have kept : (distinct same elems).Pairwise fun x y => order x y ≤ 0 := sorted.sublist distinct_sublist
  have apart : (distinct same elems).IsChain fun x y => same x y = false := List.isChain_destutter _ _
  have strict : (distinct same elems).IsChain fun x y => order x y < 0 := by
    rw [List.isChain_iff_getElem] at apart ⊢
    intro i inside
    have le := List.pairwise_iff_getElem.mp kept i (i + 1) (by omega) inside (Nat.lt_succ_self i)
    have differ := apart i inside
    rw [ties, decide_eq_false_iff_not] at differ
    omega
  have trans : IsTrans A fun x y => order x y < 0 := ⟨fun _ _ _ less le => orders.lt_of_lt_of_le less (Int.le_of_lt le)⟩
  refine (List.isChain_iff_pairwise.mp strict).imp fun less => ?_
  rw [ties, decide_eq_false_iff_not]
  omega

end Foundation
end TerseDsa
