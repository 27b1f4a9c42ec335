import TerseDsa.Algo.Filter
import TerseDsa.Deque.Shifting
import TerseDsa.List.Removal
import TerseDsa.Vec.Editing
import TerseDsa.Algo.InplaceMerging
import TerseDsa.Algo.Stable
import TerseDsa.List.Splicing

namespace TerseDsa

open Foundation Run

/-!
# One result from every container

A vec, a deque, a list and a span are different memory over the same sequence
of elems.  What is done to the sequence does not depend on which it is.
-/

variable {α C : Type} {elems : List α} {vecMem : VecMem α} {vec : Vec} {dequeMem : DequeMem α} {deque : Deque}
  {listMem : ListMem α} {list : TdaList} {nodes : List (Addr × α)} {spanMem copyMem : SpanMem α} {s dst src : Span}
  {cells : List (Option α)} {al : Al}

/-- Six loops over one sequence, wherever it is: each asks the predicate about
every elem once, from the front to the back, and leaves those it keeps, in
their order, and the state the predicate is left in.  Only the partition asks
for memory: with elems, and refused the buffer, it has asked about none. -/
theorem filters_agree (pred : Pred α C) (ctx : C) (boundary : Nat) (inVec : Vec.Holds vecMem.blocks vec elems)
    (inDeque : Deque.Holds dequeMem.blocks deque elems) (inList : TdaList.Holds listMem.blocks list nodes)
    (ofList : TdaList.elems nodes = elems) (inSpan : Span.Holds spanMem.blocks s elems)
    (inSrc : Span.Holds copyMem.blocks src elems) (overDst : Span.Over copyMem.blocks dst cells)
    (sameElem : dst.elem = src.elem) (apart : ¬ Span.Overlap dst src)
    (room : (sift pred ctx elems).1.length ≤ cells.length) (real : al.isSome = true) :
    (forall notes, sift (noting pred) (ctx, notes) elems =
      ((sift pred ctx elems).1, ((sift pred ctx elems).2, notes ++ elems))) ∧
    Ends (Vec.retain vec pred ctx) vecMem (fun result later =>
      Vec.Tends vecMem.blocks later.blocks vec result.1 (sift pred ctx elems).1 ∧
        result.1.len = (sift pred ctx elems).1.length ∧ result.2 = (sift pred ctx elems).2) ∧
    Ends (Deque.retain deque pred ctx) dequeMem (fun result later =>
      Deque.Tends dequeMem.blocks later.blocks deque result.1 (sift pred ctx elems).1 ∧
        result.1.len = (sift pred ctx elems).1.length ∧ result.2 = (sift pred ctx elems).2) ∧
    Ends (TdaList.retain list pred ctx) listMem (fun result later =>
      (exists kept, TdaList.Tends listMem.blocks later.blocks list result.1 nodes kept ∧ kept.Sublist nodes ∧
        TdaList.elems kept = (sift pred ctx elems).1) ∧
        result.1.len = (sift pred ctx elems).1.length ∧ result.2 = (sift pred ctx elems).2) ∧
    Ends (Span.removeIf s (negated pred) ctx) spanMem (fun result later =>
      (exists junk, Span.Holds later.blocks s ((sift pred ctx elems).1 ++ junk)) ∧
        result = ((sift pred ctx elems).1.length, (sift pred ctx elems).2)) ∧
    Ends (Span.copyIf dst src pred ctx) copyMem (fun result later =>
      Span.Over later.blocks dst
          ((sift pred ctx elems).1.map some ++ cells.drop (sift pred ctx elems).1.length) ∧
        Span.Holds later.blocks src elems ∧
        result = ((sift pred ctx elems).1.length, (sift pred ctx elems).2)) ∧
    Ends (Span.partitionStable s pred ctx al boundary) spanMem (fun result later =>
      (result = (.errNoMem, boundary, ctx) ∧ elems ≠ [] ∧ ¬ spanMem.Grants ∧ later.blocks = spanMem.blocks) ∨
        ((elems = [] ∨ spanMem.Grants) ∧
          Span.Holds later.blocks s ((sift pred ctx elems).1 ++ (sift (negated pred) ctx elems).1) ∧
          result = (.ok, (sift pred ctx elems).1.length, (sift pred ctx elems).2))) := by
  refine ⟨fun notes => sift_noting, ?_, ?_, ?_, ?_, ?_, ?_⟩
  · apply Vec.ends_retain inVec
    exact fun after later tends => ⟨tends, tends.holds.len, rfl⟩
  · apply Deque.ends_retain inDeque
    exact fun after later tends => ⟨tends, tends.holds.len, rfl⟩
  · apply TdaList.ends_retain inList
    intro after later kept tends part same
    rw [ofList] at same ⊢
    refine ⟨⟨kept, tends, part, same⟩, ?_, rfl⟩
    rw [tends.holds.len, ← same, TdaList.elems, List.length_map]
  · apply Span.ends_removeIf inSpan
    intro junk later length put
    rw [negated_negated] at length put ⊢
    refine ⟨⟨junk, ?_⟩, rfl⟩
    rw [put]
    exact inSpan.placed length
  · apply Span.ends_copyIf overDst inSrc sameElem apart room
    intro later put
    have length := Span.length_written room
    rw [put]
    exact ⟨overDst.filled length, overDst.beside inSrc length (Span.apart_of_not_overlap apart), rfl⟩
  · apply Span.ends_partitionStable inSpan real
    · exact fun some_ denied later same => Or.inl ⟨rfl, some_, denied, same⟩
    · intro served later put
      refine Or.inr ⟨served, ?_, rfl⟩
      rw [put]
      apply inSpan.placed
      rw [List.length_append, length_sift]

/-! ## Every other elem -/

/-- What it answers depends on how often it was asked. -/
def everyOther : Pred Nat Bool := fun _ keep => (keep, !keep)

/-- Two nodes of single bytes. -/
def pairMem : ListMem Nat where
  blocks addr := match addr with
    | 1 => some ⟨TdaList.nodeTag ⟨some 1, some 2, 2, ⟨1, 1⟩, some 0⟩, ⟨some 2, none, 7⟩⟩
    | 2 => some ⟨TdaList.nodeTag ⟨some 1, some 2, 2, ⟨1, 1⟩, some 0⟩, ⟨none, some 1, 8⟩⟩
    | _ => none
  answers _ := none
  asked := 0

theorem pairMem_holds : TdaList.Holds pairMem.blocks ⟨some 1, some 2, 2, ⟨1, 1⟩, some 0⟩ [(1, 7), (2, 8)] := by
  refine ⟨rfl, by decide, by decide, ?_, ?_, rfl⟩
  · intro entry member
    rcases List.mem_cons.mp member with rfl | member
    · exact ⟨some 2, none, rfl⟩
    · rcases List.mem_singleton.mp member with rfl
      exact ⟨none, some 1, rfl⟩
  · exact ⟨⟨rfl, rfl, rfl⟩, ⟨rfl, rfl, rfl⟩⟩

/-- The deque wraps, there is room for one elem, and the buffer is granted. -/
theorem filters_agree_everyOther :
    Ends (Deque.retain ⟨some 1, 2, 2, 1, ⟨1, 1⟩, some 0⟩ everyOther true) (Span.rowsMem [[8, 7]])
      (fun result _ => result.1.len = 1 ∧ result.2 = true) ∧
    Ends (Span.copyIf (Span.rowSpan 1 1) (Span.rowSpan 0 2) everyOther true) (Span.rowsMem [[7, 8], [0]])
      (fun result later => Span.Over later.blocks (Span.rowSpan 1 1) [some 7] ∧ result = (1, true)) ∧
    Ends (Span.partitionStable (Span.rowSpan 0 2) everyOther false (some 0) 0) (Span.lendingMem [[7, 8]])
      fun result later => Span.Holds later.blocks (Span.rowSpan 0 2) [8, 7] ∧ result = (.ok, 1, false) := by
  have inVec : Vec.Holds (Span.rowsMem [[7, 8]]).blocks ⟨some 1, 2, 2, ⟨1, 1⟩, some 0⟩ [7, 8] :=
    ⟨⟨[], rfl, by decide, by decide, rfl, Or.inr ⟨1, rfl, by decide, rfl⟩⟩, rfl⟩
  have inDeque : Deque.Holds (Span.rowsMem [[8, 7]]).blocks ⟨some 1, 2, 2, 1, ⟨1, 1⟩, some 0⟩ [7, 8] := by
    refine ⟨⟨[some 7, some 8], ⟨rfl, by decide, rfl, by decide, Or.inr (by decide), by decide, ?_⟩, rfl⟩, rfl,
      by decide⟩
    rintro addr ⟨⟩
    exact ⟨[some 8, some 7], rfl, rfl⟩
  have inSpan : Span.Holds (Span.lendingMem [[7, 8]]).blocks (Span.rowSpan 0 2) [7, 8] :=
    Span.rowsMem_holds rfl (show [7, 8].length < sizeRange by decide)
  have inSrc : Span.Holds (Span.rowsMem [[7, 8], [0]]).blocks (Span.rowSpan 0 2) [7, 8] :=
    Span.rowsMem_holds rfl (show [7, 8].length < sizeRange by decide)
  have overDst : Span.Holds (Span.rowsMem [[7, 8], [0]]).blocks (Span.rowSpan 1 1) [0] :=
    Span.rowsMem_holds rfl (show [0].length < sizeRange by decide)
  have whole := fun keep => filters_agree everyOther keep 0 inVec inDeque pairMem_holds rfl inSpan inSrc overDst rfl
    (by decide) (by cases keep <;> decide) (show (some 0 : Al).isSome = true from rfl)
  refine ⟨(whole true).2.2.1.mono ?_, (whole true).2.2.2.2.2.1.mono ?_, (whole false).2.2.2.2.2.2.mono ?_⟩
  · exact fun result later ended => ⟨ended.2.1, ended.2.2⟩
  · exact fun result later ended => ⟨ended.1, ended.2.2⟩
  · rintro result later (⟨_, _, denied, _⟩ | ⟨_, ended⟩)
    · exact absurd (Span.lendingMem_grants _) denied
    · exact ended

/-!
## Stable sorts and merges

Spans and lists are sorted and merged by different algorithms.  As far as the
comparator orders the elems, they all leave the one stable sort of what they
were given: there is no other.
-/

namespace Span

variable {α C : Type} {elems left right out : List α} {cmp : Cmp α C} {ctx : C} {order : α -> α -> Int}

/-! ## Sorting -/

/-- Each of the stable sorts makes `sorted` of the elems: insertion sort with elems of any size, which it
holds or swaps, the merging of runs unless its buffer is refused, and the sorting of a list. -/
structure SortsTo (cmp : Cmp α C) (ctx : C) (elems sorted : List α) : Prop where
  insertion : forall (heap : SpanMem α) (s : Span), Holds heap.blocks s elems ->
    Ends (insertionSort s cmp ctx) heap fun _ later => later.blocks = place heap.blocks s sorted
  buffered : forall (heap : SpanMem α) (s : Span) (al : Al), Holds heap.blocks s elems -> al.isSome = true ->
    (heap.Grants -> 2 * (s.elem.size * s.len) ≤ sizeRange) -> elems.length < 2 ∨ heap.Grants ->
    Ends (sortStable s cmp ctx al) heap fun result later =>
      result.1 = .ok ∧ later.blocks = place heap.blocks s sorted
  refused : forall (heap : SpanMem α) (s : Span) (al : Al), Holds heap.blocks s elems -> al.isSome = true ->
    2 ≤ elems.length -> ¬ heap.Grants ->
    Ends (sortStable s cmp ctx al) heap fun result later => result.1 = .errNoMem ∧ later.blocks = heap.blocks
  linked : forall (heap : ListMem α) (list : TdaList) (nodes : List (Addr × α)),
    TdaList.Holds heap.blocks list nodes -> TdaList.elems nodes = elems ->
    Ends (TdaList.sort list cmp ctx) heap fun result later =>
      Ends (TdaList.copyToSpan result.1 result.1.len result.1.elem) later fun read _ => read = sorted

/-- The elems of a sorted list of nodes are those of the sorted elems. -/
theorem sortBy_elems {nodes : List (Addr × α)} :
    TdaList.elems (sortBy (TdaList.byElem cmp) nodes ctx).1 = (sortBy (rightGoesFirst cmp) (TdaList.elems nodes) ctx).1 := by
  have same : sortBy (rightGoesFirst cmp) (nodes.map Prod.snd) ctx = _ := sortBy_map Prod.snd
  exact (congrArg Prod.fst same).symm

/-- The stable sorts agree: there is one permutation in order that keeps what is alike as it was, and
each of them leaves it. -/
theorem stable_sorts_agree (orders : cmp.Orders order) (ctx : C) (elems : List α) :
    exists sorted, StableSort (Cmp.le order) elems sorted ∧
      (forall other, StableSort (Cmp.le order) elems other -> other = sorted) ∧ SortsTo cmp ctx elems sorted := by
  have stable : StableSort (Cmp.le order) elems (sortBy (rightGoesFirst cmp) elems ctx).1 :=
    sortBy_stableSort orders.preorder orders.asks
  have only : forall other, StableSort (Cmp.le order) elems other ->
      other = (sortBy (rightGoesFirst cmp) elems ctx).1 := by
    intro other also
    exact also.unique orders.preorder stable
  refine ⟨_, stable, only, ?_, ?_, ?_, ?_⟩
  · intro heap s holds
    apply ends_insertionSort holds
    intro now _ later put _ sorts
    rw [put, only now (sorts order orders)]
  · intro heap s al holds real fits some_
    apply ends_sortStable holds real fits
    · intro long denied
      exact absurd some_ (not_or.mpr ⟨Nat.not_lt.mpr long, denied⟩)
    · intro _ now _ later sorts put
      rw [put, only now (sorts.stable order orders)]
      exact ⟨rfl, rfl⟩
  · intro heap s al holds real long denied
    apply ends_sortStable holds real fun grants => absurd grants denied
    · exact fun _ _ later same => ⟨rfl, same⟩
    · intro some_
      exact absurd some_ (not_or.mpr ⟨Nat.not_lt.mpr long, denied⟩)
  · rintro heap list nodes holds rfl
    apply TdaList.ends_sort holds
    intro after later tends
    rw [TdaList.ends_copyToSpan tends.holds, sortBy_elems]

/-- Pairs in the order of their keys. -/
def byFirst : Cmp (Nat × Nat) Unit := fun lhs rhs ctx => ((lhs.1 : Int) - rhs.1, ctx)

theorem byFirst_orders : byFirst.Orders fun lhs rhs => (lhs.1 : Int) - rhs.1 where
  answers _ _ _ := rfl
  antisymm _ _ := by omega
  trans := by omega

theorem byFirst_sorted : StableSort (Cmp.le fun lhs rhs : Nat × Nat => (lhs.1 : Int) - rhs.1)
    [(9, 0), (7, 1), (9, 2), (7, 3)] [(7, 1), (7, 3), (9, 0), (9, 2)] := by
  refine ⟨by decide, by decide, fun entry => ?_⟩
  have alike_ : forall other : Nat × Nat,
      alike (Cmp.le fun lhs rhs : Nat × Nat => (lhs.1 : Int) - rhs.1) entry other = decide (entry.1 = other.1) := by
    intro other
    rw [Bool.eq_iff_iff, alike_iff, decide_eq_true_eq]
    simp only [Cmp.le]
    omega
  simp only [alike_, List.filter_cons, List.filter_nil, decide_eq_true_eq]
  by_cases seven : entry.1 = 7
  · simp only [seven, if_true, Nat.reduceEqDiff, if_false]
  · simp only [seven, if_false]

/-- Two ties, sorted in place, with a buffer, and refused one. -/
theorem stable_sorts_agree_ties :
    Ends (insertionSort (rowSpan 0 4) byFirst ()) (rowsMem [[(9, 0), (7, 1), (9, 2), (7, 3)]]) (fun _ later =>
      later.blocks = place (rowsMem [[(9, 0), (7, 1), (9, 2), (7, 3)]]).blocks (rowSpan 0 4)
        [(7, 1), (7, 3), (9, 0), (9, 2)]) ∧
    Ends (sortStable (rowSpan 0 4) byFirst () (some 0)) (lendingMem [[(9, 0), (7, 1), (9, 2), (7, 3)]])
      (fun result later => result.1 = .ok ∧
        later.blocks = place (lendingMem [[(9, 0), (7, 1), (9, 2), (7, 3)]]).blocks (rowSpan 0 4)
          [(7, 1), (7, 3), (9, 0), (9, 2)]) ∧
    Ends (sortStable (rowSpan 0 4) byFirst () (some 0)) (rowsMem [[(9, 0), (7, 1), (9, 2), (7, 3)]])
      fun result later => result.1 = .errNoMem ∧ later.blocks = (rowsMem [[(9, 0), (7, 1), (9, 2), (7, 3)]]).blocks := by
  have row : Holds (rowsMem [[(9, 0), (7, 1), (9, 2), (7, 3)]]).blocks (rowSpan 0 4) [(9, 0), (7, 1), (9, 2), (7, 3)] :=
    rowsMem_holds rfl (show [(9, 0), (7, 1), (9, 2), (7, 3)].length < sizeRange by decide)
  have real : (some 0 : Al).isSome = true := rfl
  rcases stable_sorts_agree byFirst_orders () [(9, 0), (7, 1), (9, 2), (7, 3)] with ⟨sorted, _, only, all⟩
  rw [only _ byFirst_sorted]
  refine ⟨all.insertion _ _ row, all.buffered _ _ _ row real (fun _ => by decide) (Or.inr (lendingMem_grants _)), ?_⟩
  exact all.refused _ _ _ row real (by decide) (rowsMem_denies _)

/-! ## Merging -/

/-- Each of the merges makes `merged` of the two runs: the one in place, whatever the allocator answers and
without one, the one into a span beside, and the merging of lists unless copies of nodes are refused. -/
structure MergesTo (cmp : Cmp α C) (ctx : C) (left right merged : List α) : Prop where
  inPlace : forall (heap : SpanMem α) (s : Span) (mid : Nat) (al : Al), Holds heap.blocks s (left ++ right) ->
    left.length = mid ->
    Ends (inplaceMerge s mid cmp ctx al) heap fun _ later => later.blocks = place heap.blocks s merged
  beside : forall (heap : SpanMem α) (dst a b : Span) (cells : List (Option α)), Over heap.blocks dst cells ->
    Holds heap.blocks a left -> Holds heap.blocks b right -> dst.elem = a.elem -> dst.elem = b.elem ->
    dst.len = a.len + b.len -> ¬ Overlap dst a -> ¬ Overlap dst b ->
    Ends (merge dst a b cmp ctx) heap fun _ later => later.blocks = place heap.blocks dst merged
  linked : forall (heap : ListMem α) (self src : TdaList) (nodes others : List (Addr × α)),
    TdaList.Holds heap.blocks self nodes -> TdaList.Holds heap.blocks src others -> self.elem = src.elem ->
    (TdaList.addrs nodes).Disjoint (TdaList.addrs others) -> TdaList.elems nodes = left ->
    TdaList.elems others = right ->
    Ends (TdaList.mergeImpl self src cmp ctx) heap fun result later =>
      (result.1 = .ok ∧ Ends (TdaList.copyToSpan result.2.1 result.2.1.len result.2.1.elem) later
        fun read _ => read = merged) ∨
      (result.1 = .errNoMem ∧ self.al ≠ src.al ∧ ¬ heap.Supplies right.length ∧ later.blocks = heap.blocks)

/-- All merges agree: of two sorted runs they leave the one order of all elems that keeps those that are
alike as they were, the ones of the left run before those of the right. -/
theorem merges_agree (orders : cmp.Orders order) (ctx : C) (sortedLeft : left.Pairwise (Cmp.le order))
    (sortedRight : right.Pairwise (Cmp.le order)) :
    exists merged, StableSort (Cmp.le order) (left ++ right) merged ∧
      (forall other, StableSort (Cmp.le order) (left ++ right) other -> other = merged) ∧
      MergesTo cmp ctx left right merged := by
  have stable : StableSort (Cmp.le order) (left ++ right) (mergeBy (rightGoesFirst cmp) left right ctx).1 :=
    mergeBy_stableSort orders.preorder orders.asks sortedLeft sortedRight
  have only : forall other, StableSort (Cmp.le order) (left ++ right) other ->
      other = (mergeBy (rightGoesFirst cmp) left right ctx).1 := by
    intro other also
    exact also.unique orders.preorder stable
  refine ⟨_, stable, only, ?_, ?_, ?_⟩
  · intro heap s mid al holds atMid
    apply ends_inplaceMerge holds atMid
    intro _ later out merges put
    rw [put, only out (merges.stable order orders sortedLeft sortedRight)]
  · intro heap dst a b cells laid holdsLeft holdsRight sameLeft sameRight room apartLeft apartRight
    exact ends_merge laid holdsLeft holdsRight sameLeft sameRight room apartLeft apartRight fun _ put => put
  · rintro heap self src nodes others holds holdsSrc sameElem apart rfl rfl
    apply TdaList.ends_mergeImpl holds holdsSrc sameElem apart
    · intro two denied later same
      exact Or.inr ⟨rfl, two, by rwa [TdaList.elems, List.length_map], same⟩
    · intro after bare later moved sameElems _ _ joint
      refine Or.inl ⟨rfl, ?_⟩
      rw [TdaList.ends_copyToSpan joint.holds, ← sameElems, TdaList.elems_mergeBy]

/-- Two runs of numbers in one span, merged in place without an allocator. -/
theorem merges_agree_numbers :
    exists merged, StableSort (Cmp.le fun lhs rhs : Nat => (lhs : Int) - rhs) [7, 9, 8] merged ∧
      Ends (inplaceMerge (rowSpan 0 3) 2 byValue () none) (rowsMem [[7, 9, 8]]) fun _ later =>
        later.blocks = place (rowsMem [[7, 9, 8]]).blocks (rowSpan 0 3) merged := by
  have sortedLeft : [7, 9].Pairwise (Cmp.le fun lhs rhs : Nat => (lhs : Int) - rhs) := by decide
  have sortedRight : [8].Pairwise (Cmp.le fun lhs rhs : Nat => (lhs : Int) - rhs) := by decide
  rcases merges_agree byValue_orders () sortedLeft sortedRight with ⟨merged, stable, _, all⟩
  refine ⟨merged, stable, all.inPlace _ _ _ _ ?_ rfl⟩
  exact rowsMem_holds rfl (show [7, 9, 8].length < sizeRange by decide)

end Span
end TerseDsa
