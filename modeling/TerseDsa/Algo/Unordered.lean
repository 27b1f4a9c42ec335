import TerseDsa.Algo.InplaceMerging
import TerseDsa.Algo.Select
import TerseDsa.Algo.Stable
import TerseDsa.Algo.Permutations

namespace TerseDsa

open Foundation Run

/-!
# Whatever the comparator answers

A comparator keeps state, so that its answers need have nothing to do with one
another.  The algorithms come to an end all the same, no check of theirs
fails, and no elem is lost.
-/

namespace Span

variable {α C : Type} {heap : SpanMem α} {s : Span} {elems : List α} {cmp : Cmp α C} {ctx : C} {asc : Bool}
  {i j pivot : Nat}

/-! ## A step through the permutations -/

theorem ends_goesBefore_any (holds : Holds heap.blocks s elems) (first : i < elems.length) (second : j < elems.length)
    {post : Bool × C -> SpanMem α -> Prop} (done : forall answer ctx, post (answer, ctx) heap) :
    Ends (goesBefore s cmp ctx asc i j) heap post := by
  simp only [goesBefore, ends_bind, ends_get holds first, ends_get holds second, ends_pure]
  exact done _ _

theorem ends_findPivot_any (holds : Holds heap.blocks s elems) (some_ : 2 ≤ elems.length)
    {post : Nat × C -> SpanMem α -> Prop} (done : forall pivot ctx, pivot < elems.length -> post (pivot, ctx) heap) :
    Ends (findPivot s cmp ctx asc) heap post := by
  have length := holds.length
  refine ends_loop (fun rounds (vars : Nat × C) mid => mid = heap ∧ rounds = vars.1 ∧ vars.1 < elems.length) ?_
    ⟨rfl, rfl, by dsimp only; omega⟩ (by dsimp only; omega)
  rintro pivot ⟨_, ctx⟩ mid ⟨rfl, rfl, inside⟩
  dsimp only at inside ⊢
  rw [ends_ite]
  constructor
  · intro more
    rw [ends_bind]
    apply ends_goesBefore_any holds (by omega) inside
    intro answer ctx
    cases answer with
    | true =>
        rw [if_pos rfl, ends_pure]
        exact done pivot ctx inside
    | false =>
        rw [if_neg Bool.false_ne_true, ends_pure]
        exact ⟨pivot - 1, by omega, rfl, rfl, by dsimp only; omega⟩
  · intro first
    rw [ends_pure]
    exact done pivot ctx inside

theorem ends_findMate_any (holds : Holds heap.blocks s elems) (inside : pivot + 1 < elems.length)
    {post : Nat × C -> SpanMem α -> Prop} (done : forall mate ctx, mate < elems.length -> post (mate, ctx) heap) :
    Ends (findMate s cmp ctx asc pivot) heap post := by
  have length := holds.length
  refine ends_loop (fun rounds (vars : Nat × C) mid => mid = heap ∧ rounds = vars.1 ∧ vars.1 < elems.length) ?_
    ⟨rfl, rfl, by dsimp only; omega⟩ (by dsimp only; omega)
  rintro mate ⟨_, ctx⟩ mid ⟨rfl, rfl, among⟩
  dsimp only at among ⊢
  rw [ends_ite]
  constructor
  · intro more
    rw [ends_bind]
    apply ends_goesBefore_any holds (by omega) among
    intro answer ctx
    cases answer with
    | true =>
        rw [if_pos rfl, ends_pure]
        exact done mate ctx among
    | false =>
        rw [if_neg Bool.false_ne_true, ends_pure]
        exact ⟨mate - 1, by omega, rfl, rfl, by dsimp only; omega⟩
  · intro last
    rw [ends_pure]
    exact done mate ctx among

/-- Two elems are exchanged, and what is behind the first of them is turned around. -/
theorem ends_permuteStep_any (holds : Holds heap.blocks s elems) {post : Bool × C -> SpanMem α -> Prop}
    (done : forall more ctx now (later : SpanMem α), now.Perm elems -> later.blocks = place heap.blocks s now ->
      post (more, ctx) later) :
    Ends (permuteStep s cmp ctx asc) heap post := by
  have length := holds.length
  unfold permuteStep
  by_cases short : s.len < 2
  · rw [if_pos short, ends_pure]
    exact done _ _ elems heap (List.Perm.refl _) holds.place_same.symm
  · rw [if_neg short, ends_bind]
    apply ends_findPivot_any holds (by omega)
    intro pivot ctx inside
    dsimp only
    by_cases first : pivot = 0
    · rw [if_pos first, ends_bind]
      apply ends_reverse holds
      intro later turned
      rw [ends_pure]
      exact done _ _ _ later (List.reverse_perm _) turned
    · rw [if_neg first, ends_bind]
      apply ends_findMate_any holds (by omega)
      intro mate ctx among
      rw [ends_bind]
      apply ends_swapElems holds (by omega) among
      intro swapped exchange
      have perm : (exchanged elems (pivot - 1) mate).Perm elems := exchanged_perm _ _
      have lengthNow := perm.length_eq
      generalize exchanged elems (pivot - 1) mate = swappedElems at exchange perm lengthNow
      have now : Holds swapped.blocks s (swappedElems.take pivot ++ swappedElems.drop pivot ++ []) := by
        rw [exchange, List.append_nil, List.take_append_drop]
        exact holds.placed lengthNow
      have front : pivot - 1 + 1 = (swappedElems.take pivot).length := by
        rw [List.length_take]
        omega
      have back : s.len - (pivot - 1) - 1 = (swappedElems.drop pivot).length := by
        rw [List.length_drop]
        omega
      have within : (swappedElems.take pivot).length + (swappedElems.drop pivot).length ≤ s.len := by
        rw [List.length_take, List.length_drop]
        omega
      rw [ends_bind, front, back, ends_sub (Over.asserts now) within, ends_bind]
      apply ends_reverse now.part
      intro later turned
      have permNext : (swappedElems.take pivot ++ (swappedElems.drop pivot).reverse ++ []).Perm elems := by
        rw [List.append_nil]
        refine List.Perm.trans ?_ perm
        have turns := (List.reverse_perm (swappedElems.drop pivot)).append_left (swappedElems.take pivot)
        rwa [List.take_append_drop] at turns
      rw [now.place_part List.length_reverse, exchange, holds.place_place lengthNow permNext.length_eq] at turned
      rw [ends_pure]
      exact done _ _ _ later permNext turned

/-! ## Every algorithm -/

/-- The run comes to an end, and leaves the elems of the span in some order and all else as it was. -/
def Reorders {β : Type} (heap : SpanMem α) (s : Span) (elems : List α) (run : Run (SpanMem α) β) : Prop :=
  Ends run heap fun _ later => exists now : List α, now.Perm elems ∧ later.blocks = place heap.blocks s now

/-- Every algorithm on one span survives the comparator.  An allocator grants a second block of the size of
the span only where the address space has room for both. -/
structure Survives (heap : SpanMem α) (s : Span) (elems : List α) (cmp : Cmp α C) (ctx : C) : Prop where
  insertionSort : Reorders heap s elems (insertionSort s cmp ctx)
  sort : Reorders heap s elems (sort s cmp ctx)
  sortStable : forall al, al.isSome = true -> (heap.Grants -> 2 * (s.elem.size * s.len) ≤ sizeRange) ->
    Reorders heap s elems (sortStable s cmp ctx al)
  partialSort : forall count, count ≤ elems.length -> Reorders heap s elems (partialSort s count cmp ctx)
  nthElem : forall nth, nth < elems.length -> Reorders heap s elems (nthElem s nth cmp ctx)
  inplaceMerge : forall mid al, mid ≤ elems.length -> Reorders heap s elems (inplaceMerge s mid cmp ctx al)
  makeHeap : Reorders heap s elems (makeHeap s cmp ctx)
  pushHeap : elems ≠ [] -> Reorders heap s elems (pushHeap s cmp ctx)
  popHeap : elems ≠ [] -> Reorders heap s elems (popHeap s cmp ctx)
  sortHeap : Reorders heap s elems (sortHeap s cmp ctx)
  nextPermutation : Reorders heap s elems (nextPermutation s cmp ctx)
  prevPermutation : Reorders heap s elems (prevPermutation s cmp ctx)

theorem Holds.survives (holds : Holds heap.blocks s elems) (cmp : Cmp α C) (ctx : C) :
    Survives heap s elems cmp ctx where
  insertionSort := ends_insertionSort holds fun now _ _ put perm _ => ⟨now, perm, put⟩
  sort := ends_sort holds fun now _ _ put perm _ => ⟨now, perm, put⟩
  sortStable al real fits := by
    apply ends_sortStable holds real fits
    · intro _ _ later same
      exact ⟨elems, List.Perm.refl _, same.trans holds.place_same.symm⟩
    · intro _ now _ later sorts put
      exact ⟨now, sorts.perm, put⟩
  partialSort _ within := ends_partialSort holds within fun now _ _ put perm _ => ⟨now, perm, put⟩
  nthElem _ inside := ends_nthElem holds inside fun now _ _ put perm _ => ⟨now, perm, put⟩
  inplaceMerge mid al within := by
    have runs : Holds heap.blocks s (elems.take mid ++ elems.drop mid) := by
      rwa [List.take_append_drop]
    apply ends_inplaceMerge runs (by rw [List.length_take]; omega)
    intro _ later out merges put
    have perm := merges.perm
    rw [List.take_append_drop] at perm
    exact ⟨out, perm, put⟩
  makeHeap := ends_makeHeap holds fun now _ _ put perm _ => ⟨now, perm, put⟩
  pushHeap some_ := ends_pushHeap holds some_ fun now _ _ put perm _ => ⟨now, perm, put⟩
  popHeap some_ := ends_popHeap holds some_ fun _ _ _ _ _ put perm _ => ⟨_, perm, put⟩
  sortHeap := ends_sortHeap holds fun now _ _ put perm _ => ⟨now, perm, put⟩
  nextPermutation := by
    simp only [Reorders, Span.nextPermutation, ends_bind, ends_assertSpan (Over.asserts holds)]
    exact ends_permuteStep_any holds fun _ _ now _ perm put => ⟨now, perm, put⟩
  prevPermutation := by
    simp only [Reorders, Span.prevPermutation, ends_bind, ends_assertSpan (Over.asserts holds)]
    exact ends_permuteStep_any holds fun _ _ now _ perm put => ⟨now, perm, put⟩

/-- A broken comparator breaks nothing: the algorithms on one span leave its elems in some order, and the
merge of two spans writes the elems of both. -/
theorem any_comparator (cmp : Cmp α C) (ctx : C) :
    (forall (heap : SpanMem α) (s : Span) (elems : List α), Holds heap.blocks s elems ->
      Survives heap s elems cmp ctx) ∧
    forall (heap : SpanMem α) (dst a b : Span) (cells : List (Option α)) (left right : List α),
      Over heap.blocks dst cells -> Holds heap.blocks a left -> Holds heap.blocks b right -> dst.elem = a.elem ->
      dst.elem = b.elem -> dst.len = a.len + b.len -> ¬ Overlap dst a -> ¬ Overlap dst b ->
      Reorders heap dst (left ++ right) (merge dst a b cmp ctx) := by
  refine ⟨fun heap s elems holds => holds.survives cmp ctx, ?_⟩
  intro heap dst a b cells left right laid holdsLeft holdsRight sameLeft sameRight room apartLeft apartRight
  apply ends_merge laid holdsLeft holdsRight sameLeft sameRight room apartLeft apartRight
  exact fun later put => ⟨_, mergeBy_perm, put⟩

/-- Each answer is the opposite of the one before. -/
def contrary : Cmp Nat Bool := fun _ _ less => (if less then -1 else 1, !less)

/-- Three elems that are both below and above one another, and two spans of such. -/
theorem any_comparator_contrary :
    Ends (sort (rowSpan 0 3) contrary true) (rowsMem [[7, 9, 8]]) (fun _ later => exists now : List Nat,
      now.Perm [7, 9, 8] ∧ later.blocks = place (rowsMem [[7, 9, 8]]).blocks (rowSpan 0 3) now) ∧
    Ends (merge (rowSpan 0 3) (rowSpan 1 2) (rowSpan 2 1) contrary true) (rowsMem [[0, 0, 0], [7, 9], [8]])
      fun _ later => exists now : List Nat, now.Perm [7, 9, 8] ∧
        later.blocks = place (rowsMem [[0, 0, 0], [7, 9], [8]]).blocks (rowSpan 0 3) now := by
  have both := any_comparator contrary true
  refine ⟨(both.1 _ _ _ (rowsMem_holds rfl (show [7, 9, 8].length < sizeRange by decide))).sort, ?_⟩
  exact both.2 _ _ _ _ _ _ _ (rowsMem_holds rfl (show [0, 0, 0].length < sizeRange by decide))
    (rowsMem_holds rfl (show [7, 9].length < sizeRange by decide))
    (rowsMem_holds rfl (show [8].length < sizeRange by decide)) rfl rfl rfl (by decide) (by decide)

end Span
end TerseDsa
