import Mathlib.Data.List.Basic
import Mathlib.Tactic.Common

namespace TerseDsa
namespace Foundation

/-!
# Sifting with a predicate that remembers

A predicate may keep state between its answers.  `sift` asks it about every
elem once, in order, and gives the elems kept and the state that is left.

The elems that are not kept are what the predicate keeps whose answers are
turned around.  A row is compacted in place when each elem that is kept is
written behind those kept before it.  `Compacting` is a row in the middle of
this.
-/

variable {A B C : Type} {ask : A -> C -> Bool × C} {ctx : C} {left right elems : List A} {elem : A}

/-- The elems kept when each is asked about once, in order, and the state left. -/
def sift (ask : A -> C -> Bool × C) : C -> List A -> List A × C
  | ctx, [] => ([], ctx)
  | ctx, elem :: rest =>
      let (keep, ctx) := ask elem ctx
      let (kept, ctx) := sift ask ctx rest
      (if keep then elem :: kept else kept, ctx)

theorem sift_append :
    sift ask ctx (left ++ right) =
      ((sift ask ctx left).1 ++ (sift ask (sift ask ctx left).2 right).1,
        (sift ask (sift ask ctx left).2 right).2) := by
  induction left generalizing ctx with
  | nil => rfl
  | cons elem rest ih =>
      simp only [List.cons_append, sift, ih]
      split <;> rfl

theorem sift_snoc :
    sift ask ctx (left ++ [elem]) =
      ((sift ask ctx left).1 ++ (if (ask elem (sift ask ctx left).2).1 then [elem] else []),
        (ask elem (sift ask ctx left).2).2) := by
  rw [sift_append]
  rfl

theorem sift_sublist : (sift ask ctx elems).1.Sublist elems := by
  induction elems generalizing ctx with
  | nil => exact List.Sublist.refl _
  | cons elem rest ih =>
      simp only [sift]
      split
      · exact ih.cons_cons elem
      · exact ih.cons elem

/-- A predicate without memory filters. -/
theorem sift_eq_filter {test : A -> Bool} (answers : forall elem ctx, (ask elem ctx).1 = test elem) :
    (sift ask ctx elems).1 = elems.filter test := by
  induction elems generalizing ctx with
  | nil => rfl
  | cons elem rest ih =>
      simp only [sift, answers, ih, List.filter_cons]

/-- A predicate that looks at an image of the elems sifts the images. -/
theorem sift_map {ask : B -> C -> Bool × C} {ctx : C} (image : A -> B) :
    sift ask ctx (elems.map image) =
      ((sift (fun elem => ask (image elem)) ctx elems).1.map image,
        (sift (fun elem => ask (image elem)) ctx elems).2) := by
  induction elems generalizing ctx with
  | nil => rfl
  | cons elem rest ih =>
      simp only [List.map_cons, sift, ih]
      split <;> rfl

theorem sift_take_le (ask : A -> C -> Bool × C) (ctx : C) (elems : List A) (idx : Nat) :
    (sift ask ctx (elems.take idx)).1.length ≤ (sift ask ctx elems).1.length := by
  have whole : sift ask ctx (elems.take idx ++ elems.drop idx) = sift ask ctx elems := by rw [List.take_append_drop]
  rw [sift_append] at whole
  rw [← whole, List.length_append]
  exact Nat.le_add_right _ _

theorem sift_take_succ (ask : A -> C -> Bool × C) (ctx : C) {idx : Nat} (inside : idx < elems.length) :
    sift ask ctx (elems.take (idx + 1)) = ((sift ask ctx (elems.take idx)).1 ++
      (if (ask elems[idx] (sift ask ctx (elems.take idx)).2).1 then [elems[idx]] else []),
        (ask elems[idx] (sift ask ctx (elems.take idx)).2).2) := by
  rw [List.take_succ_eq_append_getElem inside, sift_snoc]

/-! ## The elems that are not kept -/

/-- The answers turned around. -/
def negated (ask : A -> C -> Bool × C) : A -> C -> Bool × C := fun elem ctx => (!(ask elem ctx).1, (ask elem ctx).2)

theorem negated_negated : negated (negated ask) = ask := by
  funext elem ctx
  simp only [negated, Bool.not_not]

/-- The same questions are asked. -/
theorem sift_negated : (sift (negated ask) ctx elems).2 = (sift ask ctx elems).2 := by
  induction elems generalizing ctx with
  | nil => rfl
  | cons elem rest ih =>
      simp only [sift, negated]
      exact ih

theorem length_sift (ask : A -> C -> Bool × C) (ctx : C) (elems : List A) :
    (sift ask ctx elems).1.length + (sift (negated ask) ctx elems).1.length = elems.length := by
  induction elems generalizing ctx with
  | nil => rfl
  | cons elem rest ih =>
      have behind := ih (ask elem ctx).2
      simp only [sift]
      cases answer : (ask elem ctx).1 with
      | true =>
          simp only [negated, answer, Bool.not_true, if_true, Bool.false_eq_true, if_false, List.length_cons]
          omega
      | false =>
          simp only [negated, answer, Bool.not_false, if_true, Bool.false_eq_true, if_false, List.length_cons]
          omega

/-! ## The questions -/

/-- The predicate, which notes down what it is asked about. -/
def noting (ask : A -> C -> Bool × C) : A -> C × List A -> Bool × (C × List A) := fun elem state =>
  ((ask elem state.1).1, ((ask elem state.1).2, state.2 ++ [elem]))

/-- Every elem is asked about once, in order, and the notes change no answer. -/
theorem sift_noting {notes : List A} :
    sift (noting ask) (ctx, notes) elems = ((sift ask ctx elems).1, ((sift ask ctx elems).2, notes ++ elems)) := by
  induction elems generalizing ctx notes with
  | nil =>
      rw [List.append_nil]
      rfl
  | cons elem rest ih =>
      simp only [sift, noting] at ih ⊢
      rw [ih, List.append_assoc]
      rfl

/-! ## Compaction in place -/

/-- The elems before `idx` were asked about: `vars` is how many were kept, and the state
left; those kept are in front, and the elems not yet asked about where they were. -/
structure Compacting (ask : A -> C -> Bool × C) (ctx : C) (elems : List A) (idx : Nat) (vars : Nat × C)
    (row : List A) : Prop where
  split : exists junk, row = (sift ask ctx (elems.take idx)).1 ++ junk ++ elems.drop idx
  length : row.length = elems.length
  count : vars.1 = (sift ask ctx (elems.take idx)).1.length
  left : vars.2 = (sift ask ctx (elems.take idx)).2

namespace Compacting

variable {idx : Nat} {vars : Nat × C} {row : List A}

theorem start : Compacting ask ctx elems 0 (0, ctx) elems :=
  ⟨⟨[], rfl⟩, rfl, rfl, rfl⟩

theorem count_le (state : Compacting ask ctx elems idx vars row) : vars.1 ≤ idx := by
  have fewer : (sift ask ctx (elems.take idx)).1.length ≤ (elems.take idx).length := sift_sublist.length_le
  rw [List.length_take, ← state.count] at fewer
  omega

theorem asked (state : Compacting ask ctx elems idx vars row) (inside : idx < elems.length) :
    sift ask ctx (elems.take (idx + 1)) = ((sift ask ctx (elems.take idx)).1 ++
      (if (ask elems[idx] vars.2).1 then [elems[idx]] else []), (ask elems[idx] vars.2).2) := by
  rw [sift_take_succ ask ctx inside, ← state.left]

/-- The elem that is asked about next has not been written over. -/
theorem unread (state : Compacting ask ctx elems idx vars row) (inside : idx < elems.length) :
    row[idx]? = some elems[idx] := by
  rcases state.split with ⟨junk, split⟩
  have length := state.length
  rw [split, List.length_append, List.length_drop] at length
  rw [split, List.getElem?_append_right (by omega), List.getElem?_drop, List.getElem?_eq_some_iff]
  refine ⟨by omega, ?_⟩
  congr 1
  omega

theorem dropped (state : Compacting ask ctx elems idx vars row) (inside : idx < elems.length)
    (no : (ask elems[idx] vars.2).1 = false) :
    Compacting ask ctx elems (idx + 1) (vars.1, (ask elems[idx] vars.2).2) row := by
  have asked := state.asked inside
  simp only [no, Bool.false_eq_true, if_false, List.append_nil] at asked
  rcases state.split with ⟨junk, split⟩
  refine ⟨⟨junk ++ [elems[idx]], ?_⟩, state.length, ?_, ?_⟩
  · rw [asked, split, List.drop_eq_getElem_cons inside]
    simp only [List.append_assoc, List.singleton_append]
  · rw [asked]
    exact state.count
  · rw [asked]

/-- The elem is written behind those kept before it, which may be where it is. -/
theorem kept (state : Compacting ask ctx elems idx vars row) (inside : idx < elems.length)
    (yes : (ask elems[idx] vars.2).1 = true) :
    Compacting ask ctx elems (idx + 1) (vars.1 + 1, (ask elems[idx] vars.2).2) (row.set vars.1 elems[idx]) := by
  have asked := state.asked inside
  simp only [yes, if_true] at asked
  rcases state.split with ⟨junk, split⟩
  have behind : exists more, (junk ++ elems.drop idx).set 0 elems[idx] = elems[idx] :: more ++ elems.drop (idx + 1) := by
    rw [List.drop_eq_getElem_cons inside]
    cases junk with
    | nil => exact ⟨[], rfl⟩
    | cons first rest =>
        refine ⟨rest ++ [elems[idx]], ?_⟩
        simp only [List.cons_append, List.set_cons_zero, List.append_assoc]
        rfl
  rcases behind with ⟨more, behind⟩
  refine ⟨⟨more, ?_⟩, ?_, ?_, ?_⟩
  · rw [asked, split, List.append_assoc, List.set_append_right _ _ (Nat.le_of_eq state.count.symm), state.count, Nat.sub_self,
      behind]
    simp only [List.append_assoc, List.cons_append, List.nil_append]
  · rw [List.length_set, state.length]
  · rw [asked, List.length_append, List.length_singleton, state.count]
  · rw [asked]

/-- When all were asked about, what was kept is in front. -/
theorem finished (state : Compacting ask ctx elems idx vars row) (all : idx = elems.length) :
    row.take vars.1 = (sift ask ctx elems).1 ∧ vars.2 = (sift ask ctx elems).2 := by
  rcases state.split with ⟨junk, split⟩
  have left := state.left
  rw [state.count, split]
  subst all
  simp only [List.take_length] at left ⊢
  exact ⟨by rw [List.append_assoc, List.take_left], left⟩

/-- When all were asked about, there are as many elems behind those kept as were not. -/
theorem ended (state : Compacting ask ctx elems idx vars row) (all : idx = elems.length) :
    vars = ((sift ask ctx elems).1.length, (sift ask ctx elems).2) ∧
      exists junk, row = (sift ask ctx elems).1 ++ junk ∧ junk.length = (sift (negated ask) ctx elems).1.length := by
  rcases state.split with ⟨junk, split⟩
  have count := state.count
  have left := state.left
  have length := state.length
  have total := length_sift ask ctx elems
  subst all
  rw [List.take_length] at split count left
  rw [List.drop_length, List.append_nil] at split
  refine ⟨Prod.ext count left, junk, split, ?_⟩
  rw [split, List.length_append] at length
  omega

end Compacting

end Foundation
end TerseDsa
