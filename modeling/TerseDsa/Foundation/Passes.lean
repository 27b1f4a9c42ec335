import TerseDsa.Foundation.Sorting

namespace TerseDsa
namespace Foundation

/-!
# Sorting bottom up

A pass goes through a row once and merges its runs of a width in pairs, so
that the runs of twice the width are sorted; the last run may be shorter.  What
is known of the runs before and after is a relation that merging joins.
-/

variable {A C : Type} {ask : A -> A -> C -> Bool × C} {input now row front rest : List A} {width k : Nat} {ctx : C}
  {R : List A -> List A -> Prop}

/-! ## The runs of a width -/

/-- The `k`-th run of that width. -/
def chunk (width k : Nat) (row : List A) : List A := (row.drop (k * width)).take width

theorem chunk_zero : chunk width 0 row = row.take width := by
  rw [chunk, Nat.zero_mul, List.drop_zero]

theorem chunk_nil : chunk width k ([] : List A) = [] := by
  rw [chunk, List.drop_nil, List.take_nil]

theorem chunk_drop (n : Nat) : chunk width k (row.drop (n * width)) = chunk width (n + k) row := by
  rw [chunk, chunk, List.drop_drop, Nat.add_mul]

/-- A run of twice the width is two runs. -/
theorem chunk_double : chunk (2 * width) k row = chunk width (2 * k) row ++ chunk width (2 * k + 1) row := by
  have start : k * (2 * width) = 2 * k * width := by
    rw [← Nat.mul_assoc, Nat.mul_comm k 2]
  have twice : 2 * width = width + width := Nat.two_mul width
  rw [chunk, chunk, chunk, start, twice, List.take_add, List.drop_drop, Nat.add_one_mul (2 * k)]

theorem chunk_append_zero (few : front.length ≤ width) (full : front.length = width ∨ rest = []) :
    chunk width 0 (front ++ rest) = front := by
  rcases full with full | rfl
  · rw [chunk_zero, ← full, List.take_left]
  · rw [chunk_zero, List.append_nil, List.take_of_length_le few]

/-- Only behind a full run is there another. -/
theorem chunk_append_succ (few : front.length ≤ width) (full : front.length = width ∨ rest = []) :
    chunk width (k + 1) (front ++ rest) = chunk width k rest := by
  rcases full with full | rfl
  · subst full
    rw [Nat.add_comm, ← chunk_drop, Nat.one_mul, List.drop_left]
  · rw [List.append_nil, chunk_nil, chunk, List.drop_of_length_le, List.take_nil]
    exact Nat.le_trans few (Nat.le_mul_of_pos_left _ (Nat.succ_pos k))

/-! ## A pass -/

/-- Merge the runs of that width in pairs, from the front on. -/
def mergeRuns (ask : A -> A -> C -> Bool × C) (width : Nat) (row : List A) (ctx : C) : List A × C :=
  if 0 < width ∧ 0 < row.length then
    let front := mergeBy ask (row.take width) ((row.drop width).take width) ctx
    let others := mergeRuns ask width (row.drop (2 * width)) front.2
    (front.1 ++ others.1, others.2)
  else
    (row, ctx)
termination_by row.length
decreasing_by
  rw [List.length_drop]
  omega

theorem mergeRuns_nil : mergeRuns ask width [] ctx = ([], ctx) := by
  rw [mergeRuns, if_neg fun some_ => Nat.lt_irrefl 0 some_.2]

theorem mergeRuns_some (sized : 0 < width) (some_ : row ≠ []) :
    mergeRuns ask width row ctx =
      ((mergeBy ask (row.take width) ((row.drop width).take width) ctx).1 ++
        (mergeRuns ask width (row.drop (2 * width))
          (mergeBy ask (row.take width) ((row.drop width).take width) ctx).2).1,
        (mergeRuns ask width (row.drop (2 * width))
          (mergeBy ask (row.take width) ((row.drop width).take width) ctx).2).2) := by
  rw [mergeRuns, if_pos ⟨sized, List.length_pos_of_ne_nil some_⟩]

/-- The first two runs of a row. -/
theorem two_runs : row.take width ++ (row.drop width).take width = row.take (2 * width) := by
  rw [Nat.two_mul, List.take_add]

/-- Two runs of a row, and what is around them. -/
theorem around_runs (i : Nat) : row =
    row.take i ++ (row.drop i).take width ++ ((row.drop i).drop width).take width ++ row.drop (i + 2 * width) := by
  rw [List.append_assoc (row.take i), two_runs, ← List.drop_drop, List.append_assoc, List.take_append_drop,
    List.take_append_drop]

theorem mergeRuns_perm (sized : 0 < width) : (mergeRuns ask width row ctx).1.Perm row := by
  induction row, ctx using mergeRuns.induct ask width with
  | case1 row ctx some_ front ih =>
      rw [mergeRuns_some sized (List.ne_nil_of_length_pos some_.2)]
      have merged : front.1.Perm (row.take width ++ (row.drop width).take width) := mergeBy_perm
      have halves := merged.append ih
      rw [two_runs, List.take_append_drop] at halves
      exact halves
  | case2 row ctx none_ =>
      have empty : row = [] := List.eq_nil_of_length_eq_zero (by omega)
      rw [empty, mergeRuns_nil]

section Front

variable {state : C}

theorem front_few : (mergeBy ask (row.take width) ((row.drop width).take width) ctx).1.length ≤ 2 * width := by
  rw [mergeBy_perm.length_eq, two_runs, List.length_take]
  exact Nat.min_le_left _ _

/-- Where the first two runs are not full, there is no other. -/
theorem front_full : (mergeBy ask (row.take width) ((row.drop width).take width) ctx).1.length = 2 * width ∨
    (mergeRuns ask width (row.drop (2 * width)) state).1 = [] := by
  by_cases more : 2 * width ≤ row.length
  · rw [mergeBy_perm.length_eq, two_runs, List.length_take]
    exact Or.inl (Nat.min_eq_left more)
  · have none_ : row.drop (2 * width) = [] := List.drop_eq_nil_of_le (by omega)
    rw [none_, mergeRuns_nil]
    exact Or.inr rfl

end Front

/-- Every run after a pass is the merge of two runs before it. -/
theorem chunk_mergeRuns (sized : 0 < width) : exists state, chunk (2 * width) k (mergeRuns ask width row ctx).1 =
    (mergeBy ask (chunk width (2 * k) row) (chunk width (2 * k + 1) row) state).1 := by
  induction k generalizing row ctx with
  | zero =>
      refine ⟨ctx, ?_⟩
      have first : chunk width (2 * 0) row = row.take width := chunk_zero
      have second : chunk width (2 * 0 + 1) row = (row.drop width).take width := by
        rw [chunk, Nat.mul_zero, Nat.zero_add, Nat.one_mul]
      rw [first, second]
      by_cases empty : row = []
      · rw [empty, mergeRuns_nil, chunk_nil, List.take_nil, mergeBy_nil_left, List.drop_nil, List.take_nil]
      · rw [mergeRuns_some sized empty]
        exact chunk_append_zero front_few front_full
  | succ k ih =>
      by_cases empty : row = []
      · refine ⟨ctx, ?_⟩
        rw [empty, mergeRuns_nil, chunk_nil, chunk_nil, chunk_nil, mergeBy_nil_left]
      · rcases @ih (row.drop (2 * width))
          (mergeBy ask (row.take width) ((row.drop width).take width) ctx).2 with ⟨state, same⟩
        refine ⟨state, ?_⟩
        rw [chunk_drop, chunk_drop, (by omega : 2 + 2 * k = 2 * (k + 1)),
          (by omega : 2 + (2 * k + 1) = 2 * (k + 1) + 1)] at same
        rw [mergeRuns_some sized empty, ← same]
        exact chunk_append_succ front_few front_full

/-! ## What is known of the runs -/

/-- Each run of `now` is related to what it was made of. -/
def Chunks (R : List A -> List A -> Prop) (width : Nat) (input now : List A) : Prop :=
  forall k, R (chunk width k input) (chunk width k now)

namespace Chunks

/-- To begin with every run is of one elem, or there is none. -/
theorem one (alone : forall row, row.length < 2 -> R row row) : Chunks R 1 input input := by
  intro k
  apply alone
  rw [chunk, List.length_take]
  omega

theorem merged (chunks : Chunks R width input now) (sized : 0 < width)
    (joins : forall left right left' right' state, R left left' -> R right right' ->
      R (left ++ right) (mergeBy ask left' right' state).1) :
    Chunks R (2 * width) input (mergeRuns ask width now ctx).1 := by
  intro k
  have found : exists state, chunk (2 * width) k (mergeRuns ask width now ctx).1 = _ := chunk_mergeRuns sized
  rcases found with ⟨state, same⟩
  rw [same, chunk_double]
  exact joins _ _ _ _ _ (chunks _) (chunks _)

/-- A run that is as long as the row is the row. -/
theorem whole (chunks : Chunks R width input now) (length : now.length = input.length) (all : input.length ≤ width) :
    R input now := by
  have only := chunks 0
  rwa [chunk_zero, chunk_zero, List.take_of_length_le all, List.take_of_length_le (length ▸ all)] at only

end Chunks

end Foundation
end TerseDsa
