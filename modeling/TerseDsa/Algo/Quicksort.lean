import TerseDsa.Algo.Insertion
import TerseDsa.Core.Stretches
import TerseDsa.Foundation.Selection

namespace TerseDsa

open Foundation Run Foundation.BinaryHeap

/-!
# Quicksort

The pivot, the split in three around it, and the sort of the two sides.
Whatever the comparator answers the sort ends, with the elems of the range in
another order.  It needs no slot outside the range to be set, so it reads none
of them, and they are as they were.
-/

namespace Span

variable {α C : Type} {heap : SpanMem α} {s : Span} {elems now : List α} {cells : List (Option α)} {cmp : Cmp α C} {ctx : C}
  {order : α -> α -> Int} {pivot : α} {a b c left right pivotIdx lo i hi bound depth : Nat}

/-! ## The pivot -/

/-- The median of three is one of them. -/
theorem ends_median3 (holdsIn : HoldsIn heap.blocks s lo hi cells elems) (first : lo ≤ a ∧ a < hi)
    (second : lo ≤ b ∧ b < hi) (third : lo ≤ c ∧ c < hi) {post : Nat × C -> SpanMem α -> Prop}
    (done : forall idx ctx, idx = a ∨ idx = b ∨ idx = c -> post (idx, ctx) heap) :
    Ends (median3 s a b c cmp ctx) heap post := by
  have reach := holdsIn.upTo
  simp only [median3, ends_bind, ends_getIn holdsIn first.1 first.2 (by omega),
    ends_getIn holdsIn second.1 second.2 (by omega), ends_getIn holdsIn third.1 third.2 (by omega)]
  rw [ends_ite]
  constructor
  · intro _
    rw [ends_pure]
    exact done a _ (Or.inl rfl)
  · intro _
    rw [ends_ite]
    constructor
    · intro _
      rw [ends_pure]
      exact done b _ (Or.inr (Or.inl rfl))
    · intro _
      rw [ends_pure]
      exact done c _ (Or.inr (Or.inr rfl))

/-- The pivot is one of the range, however short that is. -/
theorem ends_ninther (holdsIn : HoldsIn heap.blocks s left (right + 1) cells elems) (ordered : left < right)
    {post : Nat × C -> SpanMem α -> Prop}
    (done : forall idx ctx, left ≤ idx -> idx ≤ right -> post (idx, ctx) heap) :
    Ends (ninther s left right cmp ctx) heap post := by
  simp only [ninther, ends_bind]
  have around : (right - left + 1) / 8 ≤ (right - left + 1) / 2 := by omega
  have behind : (right - left + 1) / 2 + (right - left + 1) / 8 ≤ right - left := by omega
  generalize (right - left + 1) / 8 = step at around behind ⊢
  generalize (right - left + 1) / 2 = half at around behind ⊢
  -- a median is in the range wherever its three are
  apply ends_median3 holdsIn (by omega) (by omega) (by omega)
  intro lo ctx isLo
  replace isLo : left ≤ lo ∧ lo ≤ right := by omega
  apply ends_median3 holdsIn (by omega) (by omega) (by omega)
  intro md ctx isMd
  replace isMd : left ≤ md ∧ md ≤ right := by omega
  apply ends_median3 holdsIn (by omega) (by omega) (by omega)
  intro hi ctx isHi
  replace isHi : left ≤ hi ∧ hi ≤ right := by omega
  apply ends_median3 holdsIn (by omega) (by omega) (by omega)
  intro idx ctx isIdx
  exact done idx ctx (by omega) (by omega)

/-! ## The split -/

/-- A split half done: what is behind `hi` and in front of `i` has been compared. -/
structure Splitting (order : α -> α -> Int) (pivot : α) (now : List α) (left lo i hi right : Nat) : Prop where
  below : Throughout left lo now fun x => ¬ Cmp.le order pivot x
  among : Throughout lo i now fun x => Cmp.le order x pivot ∧ Cmp.le order pivot x
  above : Throughout (hi + 1) (right + 1) now fun x => ¬ Cmp.le order x pivot

namespace Splitting

/-- An elem that goes before the pivot changes places with the first of those alike to it. -/
theorem takeLess (splitting : Splitting order pivot now left lo i hi right) (ordered : lo < i)
    (more : i ≤ hi) (inside : hi < now.length) (less : ¬ Cmp.le order pivot now[i]) :
    Splitting order pivot (exchanged now i lo) left (lo + 1) (i + 1) hi right := by
  have ⟨below, among, above⟩ := splitting
  have at_ : forall k, (exchanged now i lo)[k]? = _ := getElem?_exchanged (by omega) (by omega)
  constructor
  · refine (below.congr fun idx _ before => ?_).snoc fun x found => ?_
    · rw [at_, if_neg (by omega), if_neg (by omega)]
    · rw [at_, if_pos rfl, List.getElem?_eq_getElem (by omega), Option.some_inj] at found
      exact found ▸ less
  · refine ((among.narrow (Nat.le_succ lo) (Nat.le_refl i)).congr fun idx reached before => ?_).snoc fun x found => ?_
    · rw [at_, if_neg (by omega), if_neg (by omega)]
    · rw [at_, if_neg (by omega), if_pos rfl] at found
      exact among lo x (Nat.le_refl lo) ordered found
  · refine above.congr fun idx reached _ => ?_
    rw [at_, if_neg (by omega), if_neg (by omega)]

/-- An elem that goes behind the pivot changes places with the last that is not compared yet. -/
theorem takeGreater (splitting : Splitting order pivot now left lo i hi right) (ordered : lo < i)
    (more : i ≤ hi) (inside : hi < now.length) (greater : ¬ Cmp.le order now[i] pivot) :
    Splitting order pivot (exchanged now i hi) left lo i (hi - 1) right := by
  have ⟨below, among, above⟩ := splitting
  have at_ : forall k, (exchanged now i hi)[k]? = _ := getElem?_exchanged (by omega) (by omega)
  constructor
  · refine below.congr fun idx _ before => ?_
    rw [at_, if_neg (by omega), if_neg (by omega)]
  · refine among.congr fun idx _ before => ?_
    rw [at_, if_neg (by omega), if_neg (by omega)]
  · rw [(by omega : hi - 1 + 1 = hi)]
    refine Throughout.cons (above.congr fun idx reached _ => ?_) fun x found => ?_
    · rw [at_, if_neg (by omega), if_neg (by omega)]
    · rw [at_, if_pos rfl, List.getElem?_eq_getElem (by omega), Option.some_inj] at found
      exact found ▸ greater

/-- One more is alike to the pivot. -/
theorem takeAlike (splitting : Splitting order pivot now left lo i hi right) (inside : i < now.length)
    (same : Cmp.le order now[i] pivot ∧ Cmp.le order pivot now[i]) :
    Splitting order pivot now left lo (i + 1) hi right := by
  have ⟨below, among, above⟩ := splitting
  refine ⟨below, among.snoc fun x found => ?_, above⟩
  rw [List.getElem?_eq_getElem inside, Option.some_inj] at found
  exact found ▸ same

end Splitting

/-- The body of the loop in `partition3`. -/
def partitionRound (s : Span) (cmp : Cmp α C) (vars : Partitioning C) :
    Run (SpanMem α) (Run.Round (Partitioning C) (Split × C)) := do
  if vars.i ≤ vars.hi then
    let elem ← get s vars.i
    let pivot ← get s vars.lo
    let (order, ctx) := cmp elem pivot vars.ctx
    if order < 0 then
      swapElems α s vars.i vars.lo
      return .again ⟨vars.lo + 1, vars.i + 1, vars.hi, ctx⟩
    else if order > 0 then
      swapElems α s vars.i vars.hi
      return .again ⟨vars.lo, vars.i, vars.hi - 1, ctx⟩
    else
      return .again ⟨vars.lo, vars.i + 1, vars.hi, ctx⟩
  else
    return .leave (⟨vars.lo, vars.hi⟩, vars.ctx)

theorem partition3_eq : partition3 s left right pivotIdx cmp ctx = (do
    require (left ≤ pivotIdx ∧ pivotIdx ≤ right)
    swapElems α s left pivotIdx
    loop (partitionRound s cmp) (right - left + 1) ⟨left, left + 1, right, ctx⟩) := rfl

/-- A split half done in memory: the variables of the loop keep their order, and so do the elems by now. -/
structure PartitionKept (heap : SpanMem α) (s : Span) (cells : List (Option α)) (elems : List α) (cmp : Cmp α C)
    (left right : Nat) (pivot : α) (vars : Partitioning C) (mid : SpanMem α) (now : List α) : Prop where
  put : mid.blocks = placeIn heap.blocks s left (right + 1) cells now
  rearranged : Rearranged left (right + 1) elems now
  first : left ≤ vars.lo
  ordered : vars.lo < vars.i
  reach : vars.i ≤ vars.hi + 1
  last : vars.hi ≤ right
  splits : forall order, cmp.Orders order -> Splitting order pivot now left vars.lo vars.i vars.hi right

/-- The pivot is in front, and it is alike to itself. -/
theorem partitionKept_start {mid : SpanMem α} (from_ : left ≤ pivotIdx) (upTo : pivotIdx ≤ right)
    (inside : right < elems.length)
    (swapped : mid.blocks = placeIn heap.blocks s left (right + 1) cells (exchanged elems left pivotIdx)) :
    PartitionKept heap s cells elems cmp left right elems[pivotIdx] ⟨left, left + 1, right, ctx⟩ mid
      (exchanged elems left pivotIdx) := by
  refine ⟨swapped, rearranged_exchanged ⟨Nat.le_refl _, by omega⟩ ⟨from_, by omega⟩ (by omega), Nat.le_refl _,
    Nat.lt_succ_self _, by dsimp only; omega, Nat.le_refl _, fun order orders => ?_⟩
  refine ⟨Throughout.empty (Nat.le_refl _), ?_, Throughout.empty (Nat.le_refl _)⟩
  refine (Throughout.empty (Nat.le_refl left)).snoc fun x found => ?_
  have atLeft : (exchanged elems left pivotIdx)[left]? = some elems[pivotIdx] := by
    rw [getElem?_exchanged (by omega) (by omega)]
    by_cases here : left = pivotIdx
    · subst here
      rw [if_pos rfl, List.getElem?_eq_getElem]
    · rw [if_neg here, if_pos rfl, List.getElem?_eq_getElem]
  rw [atLeft, Option.some_inj] at found
  subst found
  exact ⟨orders.preorder.refl _, orders.preorder.refl _⟩

/-- A round compares one elem more and has fewer to come, or there is none left to compare. -/
theorem ends_partitionRound {vars : Partitioning C} {mid : SpanMem α}
    (holdsIn : HoldsIn heap.blocks s left (right + 1) cells elems) (inside : right < elems.length)
    (kept : PartitionKept heap s cells elems cmp left right pivot vars mid now)
    {post : Run.Round (Partitioning C) (Split × C) -> SpanMem α -> Prop}
    (again : forall (next : Partitioning C) later now,
      PartitionKept heap s cells elems cmp left right pivot next later now ->
      next.hi + 1 - next.i < vars.hi + 1 - vars.i -> post (.again next) later)
    (leave : vars.i = vars.hi + 1 -> post (.leave (⟨vars.lo, vars.hi⟩, vars.ctx)) mid) :
    Ends (partitionRound s cmp vars) mid post := by
  rcases vars with ⟨lo, i, hi, ctx⟩
  rcases kept with ⟨same, rearranged, first, ordered, reach, last, splits⟩
  dsimp only at first ordered reach last splits again leave
  have length := rearranged.length
  have holdsNow : HoldsIn mid.blocks s left (right + 1) (patched left (right + 1) cells now) now := by
    rw [same]
    exact holdsIn.placed length
  have twice : forall {next}, placeIn mid.blocks s left (right + 1) (patched left (right + 1) cells now) next =
      placeIn heap.blocks s left (right + 1) cells next := by
    intro next
    rw [same, holdsIn.placeIn_placeIn (Nat.le_refl _) (Nat.le_refl _) (by omega)]
  rw [partitionRound]
  dsimp only
  rw [ends_ite]
  constructor
  · intro more
    have insideI : i < now.length := by omega
    have insideLo : lo < now.length := by omega
    simp only [ends_bind, ends_getIn holdsNow (by omega : left ≤ i) (by omega : i < right + 1) insideI,
      ends_getIn holdsNow first (by omega : lo < right + 1) insideLo]
    -- the elem at `lo` is alike to the pivot, so that the elem at `i` is compared with the pivot
    have kinds : forall order, cmp.Orders order ->
        ((cmp now[i] now[lo] ctx).1 < 0 <-> ¬ Cmp.le order pivot now[i]) ∧
          ((cmp now[i] now[lo] ctx).1 > 0 <-> ¬ Cmp.le order now[i] pivot) := by
      intro order orders
      have pivotAt := (splits order orders).among lo now[lo] (Nat.le_refl lo) ordered (List.getElem?_eq_getElem _)
      have trans : forall {x y z}, Cmp.le order x y -> Cmp.le order y z -> Cmp.le order x z := orders.preorder.trans
      have before := orders.antisymm now[i] now[lo]
      have behind := orders.antisymm now[lo] now[i]
      rw [orders.answers]
      have sameBefore : Cmp.le order pivot now[i] <-> order now[lo] now[i] ≤ 0 :=
        ⟨fun le => trans pivotAt.1 le, fun le => trans pivotAt.2 le⟩
      have sameBehind : Cmp.le order now[i] pivot <-> order now[i] now[lo] ≤ 0 :=
        ⟨fun le => trans le pivotAt.2, fun le => trans le pivotAt.1⟩
      rw [sameBefore, sameBehind]
      omega
    rw [ends_ite]
    constructor
    · intro less
      rw [ends_bind]
      apply ends_swapElemsIn holdsNow (by omega) (by omega)
      intro later put
      rw [ends_pure]
      refine again _ later (exchanged now i lo) ⟨put.trans twice, ?_, by dsimp only; omega, by dsimp only; omega,
        by dsimp only; omega, last, fun order orders => ?_⟩ (by dsimp only; omega)
      · exact rearranged.trans (rearranged_exchanged ⟨by omega, by omega⟩ ⟨first, by omega⟩ (by omega))
      · exact (splits order orders).takeLess ordered more (by omega) ((kinds order orders).1.mp less)
    · intro notLess
      rw [ends_ite]
      constructor
      · intro greater
        rw [ends_bind]
        apply ends_swapElemsIn holdsNow (by omega) (by omega)
        intro later put
        rw [ends_pure]
        refine again _ later (exchanged now i hi) ⟨put.trans twice, ?_, first, ordered, by dsimp only; omega,
          by dsimp only; omega, fun order orders => ?_⟩ (by dsimp only; omega)
        · exact rearranged.trans (rearranged_exchanged ⟨by omega, by omega⟩ ⟨by omega, by omega⟩ (by omega))
        · exact (splits order orders).takeGreater ordered more (by omega) ((kinds order orders).2.mp greater)
      · intro notGreater
        rw [ends_pure]
        refine again _ mid now ⟨same, rearranged, first, by dsimp only; omega, by dsimp only; omega, last,
          fun order orders => ?_⟩ (by dsimp only; omega)
        have kind := kinds order orders
        refine (splits order orders).takeAlike (by omega) ⟨?_, ?_⟩
        · exact Decidable.of_not_not fun not_ => notGreater (kind.2.mpr not_)
        · exact Decidable.of_not_not fun not_ => notLess (kind.1.mpr not_)
  · intro all
    rw [ends_pure]
    exact leave (by omega)

theorem ends_partition3 (holdsIn : HoldsIn heap.blocks s left (right + 1) cells elems) (from_ : left ≤ pivotIdx)
    (upTo : pivotIdx ≤ right) (inside : right < elems.length) {post : Split × C -> SpanMem α -> Prop}
    (done : forall now lt gt ctx (later : SpanMem α), later.blocks = placeIn heap.blocks s left (right + 1) cells now ->
      Rearranged left (right + 1) elems now -> left ≤ lt -> lt ≤ gt -> gt ≤ right ->
      (forall order, cmp.Orders order -> Divided (Cmp.le order) elems[pivotIdx] now left lt gt (right + 1)) ->
      post (⟨lt, gt⟩, ctx) later) :
    Ends (partition3 s left right pivotIdx cmp ctx) heap post := by
  rw [partition3_eq, ends_bind, ends_require, ends_bind]
  refine ⟨⟨from_, upTo⟩, ?_⟩
  apply ends_swapElemsIn holdsIn (by omega) (by omega)
  intro mid swapped
  refine ends_loop (fun rounds (vars : Partitioning C) mid => exists now,
    PartitionKept heap s cells elems cmp left right elems[pivotIdx] vars mid now ∧ rounds = vars.hi + 1 - vars.i) ?_
    (n := right - left) ⟨_, partitionKept_start from_ upTo inside swapped, by dsimp only; omega⟩ (Nat.lt_succ_self _)
  rintro rounds vars mid ⟨now, kept, rfl⟩
  apply ends_partitionRound holdsIn inside kept
  · exact fun next later now kept fewer => ⟨_, fewer, now, kept, rfl⟩
  · intro met
    rcases kept with ⟨same, rearranged, first, ordered, reach, last, splits⟩
    refine done now vars.lo vars.hi vars.ctx mid same rearranged first (by omega) last fun order orders => ?_
    rcases splits order orders with ⟨below, among, above⟩
    rw [met] at among
    exact ⟨first, by omega, by omega, below, among, above⟩

/-- Around the value of the pivot a range is split in three: what is less, what is alike, what is greater.
Nothing else is changed, and whenever the loop takes one off `hi`, that is above `left`. -/
theorem Holds.splits_in_three (holds : Holds heap.blocks s elems) (orders : cmp.Orders order) (ctx : C)
    (from_ : left ≤ pivotIdx) (upTo : pivotIdx ≤ right) (inside : right < elems.length) :
    (Ends (partition3 s left right pivotIdx cmp ctx) heap fun result later => exists now,
      later.blocks = place heap.blocks s now ∧
      left ≤ result.1.lt ∧ result.1.lt ≤ result.1.gt ∧ result.1.gt ≤ right ∧
      Throughout left result.1.lt now (fun x => order x elems[pivotIdx] < 0) ∧
      Throughout result.1.lt (result.1.gt + 1) now (fun x => order x elems[pivotIdx] = 0) ∧
      Throughout (result.1.gt + 1) (right + 1) now (fun x => order x elems[pivotIdx] > 0) ∧
      ((now.drop left).take (right + 1 - left)).Perm ((elems.drop left).take (right + 1 - left)) ∧
      forall idx, idx < left ∨ right < idx -> now[idx]? = elems[idx]?) ∧
    forall swapped : SpanMem α, Ends (swapElems α s left pivotIdx) heap (fun _ mid => mid = swapped) ->
      forall vars mid, Visits (partitionRound s cmp) ⟨left, left + 1, right, ctx⟩ swapped vars mid ->
        left ≤ vars.hi ∧ (vars.i ≤ vars.hi -> left < vars.hi) := by
  have holdsIn : HoldsIn heap.blocks s left (right + 1) (elems.map some) elems := holds.holdsIn (by omega)
  constructor
  · apply ends_partition3 holdsIn from_ upTo inside
    intro now lt gt ctx later put rearranged first ordered last divides
    rw [placeIn_map rearranged.length rearranged.outside] at put
    have divided := divides order orders
    have signs := fun x => orders.antisymm x elems[pivotIdx]
    refine ⟨now, put, first, ordered, last, ?_, ?_, ?_, rearranged.part (by omega) (by omega), rearranged.outside⟩
    · intro idx x low high at_
      have behind : ¬ order elems[pivotIdx] x ≤ 0 := divided.below idx x low high at_
      exact (signs x).mpr (by omega)
    · intro idx x low high at_
      have alike : order x elems[pivotIdx] ≤ 0 ∧ order elems[pivotIdx] x ≤ 0 := divided.among idx x low high at_
      have notLess := mt (signs x).mp (by omega)
      omega
    · intro idx x low high at_
      have behind : ¬ order x elems[pivotIdx] ≤ 0 := divided.above idx x low high at_
      omega
  · intro swapped swaps vars mid visits
    have start : swapped.blocks =
        placeIn heap.blocks s left (right + 1) (elems.map some) (exchanged elems left pivotIdx) := by
      have exchanges : Ends (swapElems α s left pivotIdx) heap fun _ mid => mid.blocks =
          placeIn heap.blocks s left (right + 1) (elems.map some) (exchanged elems left pivotIdx) :=
        ends_swapElemsIn holdsIn (by omega) (by omega) fun _ put => put
      rcases exchanges.and swaps with ⟨_, _, _, put, rfl⟩
      exact put
    have kept : exists now, PartitionKept heap s (elems.map some) elems cmp left right elems[pivotIdx] vars mid now := by
      refine visits.keeps (fun vars mid => exists now,
        PartitionKept heap s (elems.map some) elems cmp left right elems[pivotIdx] vars mid now) ?_
        ⟨_, partitionKept_start from_ upTo inside start⟩
      rintro vars mid ⟨now, kept⟩
      refine Ends.allows (ends_partitionRound holdsIn inside kept ?_ ?_)
      · exact fun next later now kept _ => ⟨now, kept⟩
      · exact fun _ => trivial
    rcases kept with ⟨now, kept⟩
    have first := kept.first
    have ordered := kept.ordered
    have reach := kept.reach
    omega

theorem splits_in_three_row : Ends (partition3 (rowSpan 0 4) 0 3 2 byValue ()) (rowsMem [[7, 9, 8, 9]])
    fun result later => exists now, later.blocks = place (rowsMem [[7, 9, 8, 9]]).blocks (rowSpan 0 4) now ∧
      result.1.lt ≤ result.1.gt ∧
      Throughout result.1.lt (result.1.gt + 1) now fun (x : Nat) => (x : Int) - 8 = 0 := by
  have small : [7, 9, 8, 9].length < sizeRange := by decide
  have row : Holds (rowsMem [[7, 9, 8, 9]]).blocks (rowSpan 0 4) [7, 9, 8, 9] := rowsMem_holds rfl small
  have split := row.splits_in_three byValue_orders () (show 0 ≤ 2 by decide) (show 2 ≤ 3 by decide) (by decide)
  refine split.1.mono ?_
  rintro result later ⟨now, put, _, ordered, _, _, among, _⟩
  exact ⟨now, put, ordered, among⟩

/-! ## The sort of a range -/

/-- A range of the span on its own: its elems in another order are a stretch of the whole in another order. -/
structure Ranged (heap : SpanMem α) (s : Span) (cells : List (Option α)) (elems : List α) (left right : Nat)
    (range : Span) (mid : List α) : Prop where
  holds : Holds heap.blocks range mid
  back : forall next, next.Perm mid -> exists now,
    place heap.blocks range next = placeIn heap.blocks s left (right + 1) cells now ∧
      Rearranged left (right + 1) elems now ∧ forall le, next.Pairwise le -> SortedIn le left (right + 1) now

theorem ends_closedRange {S : Type} (holdsIn : HoldsIn heap.blocks s left (right + 1) cells elems) (ordered : left ≤ right)
    {t : S} {post : Span -> S -> Prop}
    (done : forall range mid, Ranged heap s cells elems left right range mid -> post range t) :
    Ends (closedRange s left right) t post := by
  have length := holdsIn.length.trans holdsIn.covers.length
  have reach := holdsIn.upTo
  have split : elems = elems.take left ++ (elems.drop left).take (right - left + 1) ++ elems.drop (right + 1) := by
    have rest := List.take_append_drop (right - left + 1) (elems.drop left)
    rw [List.drop_drop, (by omega : left + (right - left + 1) = right + 1)] at rest
    rw [List.append_assoc, rest, List.take_append_drop]
  have lengthLeft : (elems.take left).length = left := by
    rw [List.length_take]
    omega
  have lengthMid : ((elems.drop left).take (right - left + 1)).length = right - left + 1 := by
    rw [List.length_take, List.length_drop]
    omega
  rcases holdsIn.part split lengthLeft.symm (by omega) with ⟨part, placed⟩
  have count : right + 1 - left = right - left + 1 := by omega
  rw [count] at part placed
  rw [closedRange, ends_sub holdsIn.covers.asserts (by omega)]
  refine done _ ((elems.drop left).take (right - left + 1)) ⟨part, fun next perm => ?_⟩
  have rearranged : Rearranged (elems.take left).length ((elems.take left).length +
      ((elems.drop left).take (right - left + 1)).length) _ (elems.take left ++ next ++ elems.drop (right + 1)) :=
    Rearranged.of_part perm
  rw [← split, lengthLeft, lengthMid, (by omega : left + (right - left + 1) = right + 1)] at rearranged
  refine ⟨_, placed next perm.length_eq, rearranged, fun le sorted => ?_⟩
  have sortedThere : SortedIn le (elems.take left).length ((elems.take left).length + next.length)
      (elems.take left ++ next ++ elems.drop (right + 1)) := sortedIn_part sorted
  rwa [lengthLeft, perm.length_eq, lengthMid, (by omega : left + (right - left + 1) = right + 1)] at sortedThere

/-- The elems from `lo` on and before `hi` end in order, whatever is in the other slots: the rule that each
of the three sorts obeys. -/
def SortsRange (cmp : Cmp α C) (s : Span) (lo hi : Nat) (run : Run (SpanMem α) C) : Prop :=
  forall {heap : SpanMem α} {cells : List (Option α)} {elems : List α} {post : C -> SpanMem α -> Prop},
    HoldsIn heap.blocks s lo hi cells elems ->
    (forall now ctx (later : SpanMem α), later.blocks = placeIn heap.blocks s lo hi cells now ->
      Rearranged lo hi elems now ->
      (forall order, cmp.Orders order -> SortedIn (Cmp.le order) lo hi now) -> post ctx later) ->
    Ends run heap post

theorem sortsRange_short (few : hi ≤ lo + 1) : SortsRange cmp s lo hi (pure ctx) := by
  intro heap cells elems post holdsIn done
  rw [ends_pure]
  exact done elems ctx heap holdsIn.placeIn_same.symm (Rearranged.refl _ _ _) fun _ _ => sortedIn_short few

theorem sortsRange_insertion (ordered : left ≤ right) : SortsRange cmp s left (right + 1) (do
    let range ← closedRange s left right
    insertionSort range cmp ctx) := by
  intro heap cells elems post holdsIn done
  rw [ends_bind]
  apply ends_closedRange holdsIn ordered
  intro range mid ranged
  apply ends_insertionSort ranged.holds
  intro next ctx later put perm sorts
  rcases ranged.back next perm with ⟨now, same, rearranged, inOrder⟩
  exact done now ctx later (put.trans same) rearranged fun order orders => inOrder _ (sorts order orders).sorted

theorem sortsRange_heap (ordered : left ≤ right) : SortsRange cmp s left (right + 1) (do
    let range ← closedRange s left right
    let ctx ← makeHeap range cmp ctx
    sortHeap range cmp ctx) := by
  intro heap cells elems post holdsIn done
  rw [ends_bind]
  apply ends_closedRange holdsIn ordered
  intro range mid ranged
  rw [ends_bind]
  apply ends_makeHeap ranged.holds
  intro built ctx between put perm heaps
  have holdsBuilt : Holds between.blocks range built := by
    rw [put]
    exact ranged.holds.placed perm.length_eq
  apply ends_sortHeap holdsBuilt
  intro next ctx later drained permNext sorts
  rw [put, ranged.holds.place_place perm.length_eq (permNext.trans perm).length_eq] at drained
  rcases ranged.back next (permNext.trans perm) with ⟨now, same, rearranged, inOrder⟩
  exact done now ctx later (drained.trans same) rearranged fun order orders =>
    inOrder _ (sorts order orders (heaps order orders))

/-- Of a split range one side is sorted and then the other. -/
theorem sortsRange_sides {split : List α} {between : SpanMem α} {lt gt : Nat} {post : C -> SpanMem α -> Prop}
    {first second : Nat × Nat} {next : C -> Run (SpanMem α) C} {run : Run (SpanMem α) C}
    (sides : first = (lo, lt) ∧ second = (gt + 1, hi) ∨ first = (gt + 1, hi) ∧ second = (lo, lt))
    (holdsIn : HoldsIn heap.blocks s lo hi cells elems) (put : between.blocks = placeIn heap.blocks s lo hi cells split)
    (rearranged : Rearranged lo hi elems split) (bounds : lo ≤ lt ∧ lt ≤ gt ∧ gt < hi)
    (divides : forall order, cmp.Orders order -> Divided (Cmp.le order) pivot split lo lt gt hi)
    (sortsFirst : SortsRange cmp s first.1 first.2 run)
    (sortsSecond : forall ctx, SortsRange cmp s second.1 second.2 (next ctx))
    (done : forall now ctx (later : SpanMem α), later.blocks = placeIn heap.blocks s lo hi cells now ->
      Rearranged lo hi elems now ->
      (forall order, cmp.Orders order -> SortedIn (Cmp.le order) lo hi now) -> post ctx later) :
    Ends (run >>= next) between post := by
  have length := rearranged.length
  have reach := holdsIn.upTo
  have insideFirst : lo ≤ first.1 ∧ first.2 ≤ hi := by
    rcases sides with ⟨rfl, rfl⟩ | ⟨rfl, rfl⟩ <;> dsimp only <;> omega
  have insideSecond : lo ≤ second.1 ∧ second.2 ≤ hi := by
    rcases sides with ⟨rfl, rfl⟩ | ⟨rfl, rfl⟩ <;> dsimp only <;> omega
  have holdsSplit : HoldsIn between.blocks s lo hi (patched lo hi cells split) split := by
    rw [put]
    exact holdsIn.placed length
  rw [ends_bind]
  apply sortsFirst (holdsSplit.narrow insideFirst.1 insideFirst.2)
  intro half ctx mid putFirst rearrangedFirst inOrderFirst
  have lengthHalf := rearrangedFirst.length.trans length
  rw [put, holdsIn.placeIn_placeIn insideFirst.1 insideFirst.2 fun idx _ _ => rearrangedFirst.outside idx] at putFirst
  have holdsHalf : HoldsIn mid.blocks s lo hi (patched lo hi cells half) half := by
    rw [putFirst]
    exact holdsIn.placed lengthHalf
  apply sortsSecond ctx (holdsHalf.narrow insideSecond.1 insideSecond.2)
  intro now ctx later putSecond rearrangedSecond inOrderSecond
  apply done now ctx later
  · rw [putSecond, putFirst, holdsIn.placeIn_placeIn insideSecond.1 insideSecond.2 fun idx _ _ =>
      rearrangedSecond.outside idx]
  · refine rearranged.trans ?_
    rcases sides with ⟨rfl, rfl⟩ | ⟨rfl, rfl⟩
    · exact (rearrangedFirst.widen (Nat.le_refl _) (by omega)).trans
        (rearrangedSecond.widen (by omega) (Nat.le_refl _))
    · exact (rearrangedFirst.widen (by omega) (Nat.le_refl _)).trans
        (rearrangedSecond.widen (Nat.le_refl _) (by omega))
  · intro order orders
    rcases sides with ⟨rfl, rfl⟩ | ⟨rfl, rfl⟩
    · exact (divides order orders).inOrder_below_above orders.preorder (by omega) rearrangedFirst rearrangedSecond
        (inOrderFirst order orders) (inOrderSecond order orders)
    · exact (divides order orders).inOrder_above_below orders.preorder (by omega) rearrangedFirst rearrangedSecond
        (inOrderFirst order orders) (inOrderSecond order orders)

theorem ends_quicksort (few : right - left < bound) :
    SortsRange cmp s left (right + 1) (quicksort bound s left right depth cmp ctx) := by
  induction bound generalizing left right depth ctx with
  | zero => exact absurd few (Nat.not_lt_zero _)
  | succ bound ih =>
      intro heap cells elems post holdsIn done
      have reach := holdsIn.upTo
      rw [quicksort, ends_ite]
      constructor
      · intro more
        rw [ends_ite]
        constructor
        · intro _
          exact sortsRange_insertion (Nat.le_of_lt more) holdsIn done
        · intro _
          rw [ends_ite]
          constructor
          · intro _
            exact sortsRange_heap (Nat.le_of_lt more) holdsIn done
          · intro _
            rw [ends_bind]
            apply ends_ninther holdsIn more
            intro pivotIdx ctx from_ upTo
            rw [ends_bind]
            apply ends_partition3 holdsIn from_ upTo (by omega)
            intro split lt gt ctx between divided rearranged first ordered last divides
            have bounds : left ≤ lt ∧ lt ≤ gt ∧ gt < right + 1 := ⟨first, ordered, Nat.lt_succ_of_le last⟩
            -- what is below the pivot and what is above it, each sorted where there is any of it
            have sortsBelow : forall ctx, lt > left ->
                SortsRange cmp s left lt (quicksort bound s left (lt - 1) (depth - 1) cmp ctx) := by
              intro ctx some_
              have range : SortsRange cmp s left (lt - 1 + 1) (quicksort bound s left (lt - 1) (depth - 1) cmp ctx) :=
                ih (by omega)
              rwa [Nat.sub_add_cancel (Nat.lt_of_le_of_lt (Nat.zero_le left) some_)] at range
            have sortsAbove : forall ctx,
                SortsRange cmp s (gt + 1) (right + 1) (quicksort bound s (gt + 1) right (depth - 1) cmp ctx) :=
              fun ctx => ih (by omega)
            rw [ends_ite]
            constructor
            · intro _
              refine sortsRange_sides (Or.inl ⟨rfl, rfl⟩) holdsIn divided rearranged bounds divides ?_ sortsAbove done
              by_cases some_ : lt > left
              · rw [if_pos some_]
                exact sortsBelow ctx some_
              · rw [if_neg some_]
                exact sortsRange_short (by dsimp only; omega)
            · intro _
              refine sortsRange_sides (Or.inr ⟨rfl, rfl⟩) holdsIn divided rearranged bounds divides ?_
                (fun ctx => ?_) done
              · by_cases some_ : gt < right
                · rw [if_pos some_]
                  exact sortsAbove ctx
                · rw [if_neg some_]
                  exact sortsRange_short (by dsimp only; omega)
              · by_cases none_ : lt = left
                · rw [if_pos none_]
                  exact sortsRange_short (by dsimp only; omega)
                · rw [if_neg none_]
                  exact sortsBelow ctx (by omega)
      · intro short
        exact sortsRange_short (by omega) holdsIn done

/-! ## The whole span -/

theorem ends_depthLimit {S : Type} {len : Nat} (more : 1 < len) {t : S} {post : Nat -> S -> Prop}
    (done : forall depth, post depth t) : Ends (depthLimit len) t post := by
  simp only [depthLimit, bitLog2Floor, ends_bind, ends_require, ends_pure]
  exact ⟨more, Nat.lt_of_succ_lt more, done _⟩

/-- Whatever the comparator answers, the elems are in another order, and sorted where it orders them. -/
theorem ends_sort (holds : Holds heap.blocks s elems) {post : C -> SpanMem α -> Prop}
    (done : forall now ctx (later : SpanMem α), later.blocks = place heap.blocks s now -> now.Perm elems ->
      (forall order, cmp.Orders order -> now.Pairwise (Cmp.le order)) -> post ctx later) :
    Ends (sort s cmp ctx) heap post := by
  have length := holds.length
  simp only [sort, ends_bind, ends_assertSpan (Over.asserts holds)]
  rw [ends_ite]
  constructor
  · intro short
    rw [ends_pure]
    exact done elems ctx heap holds.place_same.symm (List.Perm.refl _) fun order _ => pairwise_short (by omega)
  · intro long
    rw [ends_bind]
    apply ends_depthLimit (by omega)
    intro depth
    have all : HoldsIn heap.blocks s 0 (s.len - 1 + 1) (elems.map some) elems := holds.holdsIn (by omega)
    apply ends_quicksort (by omega) all
    intro now ctx later put rearranged inOrder
    rw [placeIn_map rearranged.length rearranged.outside] at put
    refine done now ctx later put rearranged.perm fun order orders => pairwise_of_sortedIn ?_
    have whole := inOrder order orders
    rwa [Nat.sub_add_cancel (by omega), ← length, ← rearranged.length] at whole

/-- A span ends up in order, whichever way its ranges are sorted.  The sort of a range, with any depth left,
needs none of the slots outside it to be set and leaves them as they were. -/
theorem Holds.quicksorts (holds : Holds heap.blocks s elems) (orders : cmp.Orders order) (ctx : C) :
    (Ends (sort s cmp ctx) heap fun _ later => exists now,
      later.blocks = place heap.blocks s now ∧ now.Perm elems ∧ now.Pairwise (Cmp.le order)) ∧
    forall (mid : SpanMem α) (cells : List (Option α)) (row : List α) (left right depth bound : Nat) (ctx : C),
      HoldsIn mid.blocks s left (right + 1) cells row -> right - left < bound ->
        Ends (quicksort bound s left right depth cmp ctx) mid fun _ later => exists now,
          later.blocks = placeIn mid.blocks s left (right + 1) cells now ∧
            (forall idx, idx < left ∨ right < idx -> (patched left (right + 1) cells now)[idx]? = cells[idx]?) ∧
            Rearranged left (right + 1) row now ∧ SortedIn (Cmp.le order) left (right + 1) now := by
  constructor
  · exact ends_sort holds fun now _ _ put perm sorts => ⟨now, put, perm, sorts order orders⟩
  · intro mid cells row left right depth bound ctx holdsIn few
    apply ends_quicksort few holdsIn
    intro now _ later put rearranged sorts
    refine ⟨now, put, fun idx outside => ?_, rearranged, sorts order orders⟩
    have away : ¬ (left ≤ idx ∧ idx < right + 1) := by omega
    rw [getElem?_patched]
    simp only [if_neg away]
    exact Option.map_id_apply

theorem quicksorts_row : Ends (sort (rowSpan 0 4) byValue ()) (rowsMem [[7, 9, 8, 9]]) fun _ later =>
    exists now, later.blocks = place (rowsMem [[7, 9, 8, 9]]).blocks (rowSpan 0 4) now ∧ now.Perm [7, 9, 8, 9] ∧
      now.Pairwise (Cmp.le fun (lhs rhs : Nat) => (lhs : Int) - rhs) := by
  have small : [7, 9, 8, 9].length < sizeRange := by decide
  have row : Holds (rowsMem [[7, 9, 8, 9]]).blocks (rowSpan 0 4) [7, 9, 8, 9] := rowsMem_holds rfl small
  exact (row.quicksorts byValue_orders ()).1

end Span
end TerseDsa
