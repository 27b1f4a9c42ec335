import TerseDsa.Algo.Filter
import TerseDsa.Algo.Permute
import TerseDsa.Algo.Search
import TerseDsa.Foundation.Scanning

namespace TerseDsa

open Foundation Run

/-!
# Partitions of `algo/permute`

A span is partitioned by swaps, or stably with scratch memory.  Both put the
elems that pass in front in their order, and the place where they stop is what
the scan in two phases and the binary search say too.
-/

namespace Span

variable {α C : Type} {heap : SpanMem α} {s : Span} {elems row : List α} {pred : Pred α C} {ctx : C}
  {test : α -> Bool} {i : Nat} {vars : Nat × C}

/-- `tda_span_partition`. -/
def partition (s : Span) (pred : Pred α C) (ctx : C) : Run (SpanMem α) (Nat × C) := do
  assertSpan s
  countUp (fun i vars => do
    let elem ← get s i
    let (passes, ctx) := pred elem vars.2
    if passes then
      if i ≠ vars.1 then
        swapElems α s i vars.1
      return (vars.1 + 1, ctx)
    return (vars.1, ctx)) s.len 0 (0, ctx)

/-- One phase of `tda_span_is_partitioned`: on while the elems pass, or while they do not. -/
def skip (s : Span) (pred : Pred α C) (passing_ : Bool) (i : Nat) (ctx : C) : Run (SpanMem α) (Nat × C) :=
  loop (fun (vars : Nat × C) => do
    let (i, ctx) := vars
    if i < s.len then
      let elem ← get s i
      let (passes, ctx) := pred elem ctx
      if passes = passing_ then
        return .again (i + 1, ctx)
      return .leave (i, ctx)
    return .leave (i, ctx)) (s.len + 1) (i, ctx)

/-- `tda_span_is_partitioned`. -/
def isPartitioned (s : Span) (pred : Pred α C) (ctx : C) : Run (SpanMem α) (Bool × C) := do
  assertSpan s
  let (i, ctx) ← skip s pred true 0 ctx
  let (i, ctx) ← skip s pred false i ctx
  return (decide (i = s.len), ctx)

/-! ## By swaps -/

/-- The elems before `i` were asked about: those that passed are in front in their order, the
others behind them in some order, and those not asked about are where they were. -/
structure Parted (pred : Pred α C) (ctx : C) (elems : List α) (i : Nat) (vars : Nat × C) (row : List α) : Prop where
  split : exists rest, row = (sift pred ctx (elems.take i)).1 ++ rest ++ elems.drop i ∧
    rest.Perm (sift (negated pred) ctx (elems.take i)).1
  count : vars.1 = (sift pred ctx (elems.take i)).1.length
  left : vars.2 = (sift pred ctx (elems.take i)).2

namespace Parted

theorem start : Parted pred ctx elems 0 (0, ctx) elems := ⟨⟨[], rfl, List.Perm.refl _⟩, rfl, rfl⟩

theorem asked (state : Parted pred ctx elems i vars row) (inside : i < elems.length) :
    sift pred ctx (elems.take (i + 1)) = ((sift pred ctx (elems.take i)).1 ++
      (if (pred elems[i] vars.2).1 then [elems[i]] else []), (pred elems[i] vars.2).2) := by
  rw [sift_take_succ pred ctx inside, ← state.left]

theorem askedNegated (state : Parted pred ctx elems i vars row) (inside : i < elems.length) :
    (sift (negated pred) ctx (elems.take (i + 1))).1 = (sift (negated pred) ctx (elems.take i)).1 ++
      (if (pred elems[i] vars.2).1 then [] else [elems[i]]) := by
  rw [sift_take_succ (negated pred) ctx inside, sift_negated, ← state.left]
  cases answer : (pred elems[i] vars.2).1 with
  | true => simp only [negated, answer, Bool.not_true, Bool.false_eq_true, if_false, if_true]
  | false => simp only [negated, answer, Bool.not_false, Bool.false_eq_true, if_false, if_true]

theorem length (state : Parted pred ctx elems i vars row) : row.length = elems.length := by
  rcases state.split with ⟨rest, rfl, perm⟩
  have sides := length_sift pred ctx (elems.take i)
  rw [List.length_append, List.length_append, perm.length_eq, sides, ← List.length_append, List.take_append_drop]

/-- The elem that is asked about next is where it was. -/
theorem unread (state : Parted pred ctx elems i vars row) (inside : i < elems.length) : row[i]? = some elems[i] := by
  rcases state.split with ⟨rest, rfl, perm⟩
  have sides := length_sift pred ctx (elems.take i)
  have front : ((sift pred ctx (elems.take i)).1 ++ rest).length = i := by
    rw [List.length_append, perm.length_eq, sides, List.length_take, Nat.min_eq_left (Nat.le_of_lt inside)]
  rw [List.getElem?_append_right (Nat.le_of_eq front), front, Nat.sub_self, List.drop_eq_getElem_cons inside]
  rfl

theorem count_le (state : Parted pred ctx elems i vars row) (inside : i ≤ elems.length) : vars.1 ≤ i := by
  have fewer : (sift pred ctx (elems.take i)).1.length ≤ (elems.take i).length := sift_sublist.length_le
  rw [List.length_take, ← state.count] at fewer
  omega

theorem rejects (state : Parted pred ctx elems i vars row) (inside : i < elems.length)
    (no : (pred elems[i] vars.2).1 = false) :
    Parted pred ctx elems (i + 1) (vars.1, (pred elems[i] vars.2).2) row := by
  have asked := state.asked inside
  have others := state.askedNegated inside
  simp only [no, Bool.false_eq_true, if_false, List.append_nil] at asked others
  rcases state.split with ⟨rest, split, perm⟩
  refine ⟨⟨rest ++ [elems[i]], ?_, ?_⟩, ?_, ?_⟩
  · rw [asked, split, List.drop_eq_getElem_cons inside]
    simp only [List.append_assoc, List.singleton_append]
  · rw [others]
    exact perm.append_right _
  · rw [asked]
    exact state.count
  · rw [asked]

/-- The elem that passes changes places with the first of the others, if there is one. -/
theorem passes (state : Parted pred ctx elems i vars row) (inside : i < elems.length)
    (yes : (pred elems[i] vars.2).1 = true) :
    Parted pred ctx elems (i + 1) (vars.1 + 1, (pred elems[i] vars.2).2)
      (if i ≠ vars.1 then exchanged row i vars.1 else row) := by
  have asked := state.asked inside
  have others := state.askedNegated inside
  simp only [yes, if_true, List.append_nil] at asked others
  have sides := length_sift pred ctx (elems.take i)
  rw [List.length_take, Nat.min_eq_left (Nat.le_of_lt inside), ← state.count] at sides
  rcases state.split with ⟨rest, split, perm⟩
  have many := perm.length_eq
  refine ⟨?_, by rw [asked, List.length_append, List.length_singleton, state.count], by rw [asked]⟩
  rw [asked, others]
  cases rest with
  | nil =>
      rw [List.length_nil] at many
      rw [if_neg (not_not.mpr (by omega)), split, List.drop_eq_getElem_cons inside]
      refine ⟨[], ?_, perm⟩
      simp only [List.append_nil, List.append_assoc, List.singleton_append]
  | cons first more =>
      rw [List.length_cons] at many
      refine ⟨more ++ [first], ?_, (List.perm_append_singleton first more).trans perm⟩
      have far : i = vars.1 + (more.length + 1) := by omega
      have whole_ : row = (sift pred ctx (elems.take i)).1 ++ first :: (more ++ elems[i] :: elems.drop (i + 1)) := by
        rw [split, List.drop_eq_getElem_cons inside]
        simp only [List.append_assoc, List.cons_append]
      have swapped := exchanged_two (sift pred ctx (elems.take i)).1 more (elems.drop (i + 1)) first elems[i]
      rw [← whole_, ← state.count, ← far, exchanged_comm] at swapped
      rw [if_pos (by omega), swapped]
      simp only [List.append_assoc, List.cons_append, List.nil_append]

end Parted

/-- Those that pass are in front in their order, the others behind them in some order. -/
theorem ends_partition (holds : Holds heap.blocks s elems) {post : Nat × C -> SpanMem α -> Prop}
    (done : forall (rest : List α) (later : SpanMem α), rest.Perm (sift (negated pred) ctx elems).1 ->
      later.blocks = place heap.blocks s ((sift pred ctx elems).1 ++ rest) ->
      post ((sift pred ctx elems).1.length, (sift pred ctx elems).2) later) :
    Ends (partition s pred ctx) heap post := by
  have len := holds.length
  simp only [partition, ends_bind, ends_assertSpan (Over.asserts holds)]
  apply ends_countUp (fun i vars later =>
    exists row, later.blocks = place heap.blocks s row ∧ Parted pred ctx elems i vars row)
    (show 0 + s.len = s.len by omega)
  · rintro i vars later _ below ⟨row, put, state⟩
    have inside : i < elems.length := by omega
    have size := state.length
    have now : Holds later.blocks s row := by
      rw [put]
      exact holds.placed size
    simp only [ends_bind, ends_get_of now (state.unread inside)]
    cases answer : (pred elems[i] vars.2).1 with
    | true =>
        have next := state.passes inside answer
        simp only [if_true]
        by_cases moved : i ≠ vars.1
        · rw [if_pos moved] at next
          rw [if_pos moved, ends_bind]
          have before := state.count_le (Nat.le_of_lt inside)
          apply ends_swapElems now (by omega) (by omega)
          intro last swapped
          refine (ends_pure _ _ _).mpr ⟨_, ?_, next⟩
          rw [swapped, put, holds.place_place size ((length_exchanged i vars.1).trans size)]
        · rw [if_neg moved] at next ⊢
          simp only [ends_pure]
          exact ⟨row, put, next⟩
    | false =>
        simp only [Bool.false_eq_true, if_false, ends_pure]
        exact ⟨row, put, state.rejects inside answer⟩
  · rintro ⟨count, left⟩ later ⟨row, put, state⟩
    rcases state.split with ⟨rest, split, perm⟩
    have counted := state.count
    have asked := state.left
    rw [List.take_of_length_le (Nat.le_of_eq len)] at split perm counted asked
    rw [List.drop_of_length_le (Nat.le_of_eq len), List.append_nil] at split
    dsimp only at counted asked
    rw [counted, asked]
    exact done rest later perm (split ▸ put)
  · exact ⟨elems, holds.place_same.symm, Parted.start⟩

/-! ## Whether a span is partitioned -/

/-- No elem that passes follows one that does not. -/
def Partitioned (test : α -> Bool) (elems : List α) : Prop :=
  elems.Pairwise fun first second => test second = true -> test first = true

theorem CutAt.partitioned {cut : Nat} (cutAt : CutAt test elems cut) : Partitioned test elems := by
  unfold Partitioned
  rw [List.pairwise_iff_getElem]
  intro i k inside below less passes
  exact (cutAt.2 i inside).mpr (Nat.lt_trans less ((cutAt.2 k below).mp passes))

/-- The scan goes on to the first elem of the other kind, or to the end. -/
theorem ends_skip (holds : Holds heap.blocks s elems) (answers : pred.Answers test) {kind : Bool}
    (start : i ≤ elems.length) {post : Nat × C -> SpanMem α -> Prop}
    (done : forall k ctx, i ≤ k -> k ≤ elems.length ->
      (forall j (inside : j < elems.length), i ≤ j -> j < k -> test elems[j] = kind) ->
      (forall inside : k < elems.length, test elems[k] = !kind) -> post (k, ctx) heap) :
    Ends (skip s pred kind i ctx) heap post := by
  have len := holds.length
  refine ends_loop (fun left (vars : Nat × C) later => later = heap ∧ left + vars.1 = s.len ∧ i ≤ vars.1 ∧
    forall j (inside : j < elems.length), i ≤ j -> j < vars.1 -> test elems[j] = kind) ?_
    (n := s.len - i) ⟨rfl, by dsimp only; omega, Nat.le_refl i, fun j _ from_ below => absurd below (Nat.not_lt.mpr from_)⟩
    (by omega)
  rintro left ⟨k, now⟩ later ⟨rfl, total, from_, kinds⟩
  dsimp only at total from_ kinds ⊢
  rw [ends_ite]
  constructor
  · intro some_
    have inside : k < elems.length := by omega
    rw [ends_bind, ends_get holds inside]
    by_cases same : (pred elems[k] now).1 = kind
    · rw [if_pos same]
      refine (ends_pure _ _ _).mpr ⟨left - 1, by omega, rfl, by dsimp only; omega, by dsimp only; omega, ?_⟩
      intro j below start_ early
      rcases Nat.lt_succ_iff_lt_or_eq.mp early with earlier | rfl
      · exact kinds j below start_ earlier
      · exact (answers _ _).symm.trans same
    · rw [if_neg same]
      refine (ends_pure _ _ _).mpr (done k _ from_ (Nat.le_of_lt inside) kinds fun below => ?_)
      rw [answers] at same
      exact Bool.eq_not_iff.mpr same
  · intro all
    exact (ends_pure _ _ _).mpr (done k now from_ (by omega) kinds fun below => absurd below (by omega))

theorem ends_isPartitioned (holds : Holds heap.blocks s elems) (answers : pred.Answers test)
    {post : Bool × C -> SpanMem α -> Prop}
    (done : forall answer ctx, (answer = true <-> Partitioned test elems) -> post (answer, ctx) heap) :
    Ends (isPartitioned s pred ctx) heap post := by
  have len := holds.length
  simp only [isPartitioned, ends_bind, ends_assertSpan (Over.asserts holds)]
  apply ends_skip holds answers (Nat.zero_le _)
  intro first ctx _ firstFits passes fails
  apply ends_skip holds answers firstFits
  intro second ctx from_ fits failsOn stops
  refine (ends_pure _ _ _).mpr (done _ ctx ?_)
  rw [decide_eq_true_eq]
  constructor
  · intro all
    have cutAt : CutAt test elems first := by
      refine ⟨firstFits, fun k inside => ⟨fun yes => ?_, fun early => passes k inside (Nat.zero_le k) early⟩⟩
      by_contra late
      have no := failsOn k inside (Nat.le_of_not_lt late) (by omega)
      exact Bool.false_ne_true (no.symm.trans yes)
    exact cutAt.partitioned
  · intro partitioned
    by_contra stopped
    -- the elem it stopped at passes, the first one of the second phase does not
    have inside : second < elems.length := by omega
    have yes := stops inside
    have no := fails (by omega)
    have apart : first < second := by
      rcases Nat.lt_or_eq_of_le from_ with less | rfl
      · exact less
      · rw [yes] at no
        cases no
    have also := (List.pairwise_iff_getElem.mp partitioned) first second (by omega) inside apart yes
    exact Bool.false_ne_true (no.symm.trans also)

/-! ## The result -/

/-- The span is partitioned at the boundary, as the scan and the binary search say. -/
def StandsAt (heap : SpanMem α) (s : Span) (pred : Pred α C) (boundary : Nat) : Prop :=
  forall ctx, Ends (isPartitioned s pred ctx) heap (fun result later => later = heap ∧ result.1 = true) ∧
    Ends (partitionPoint s pred ctx) heap fun result later => later = heap ∧ result.1 = boundary

theorem CutAt.append {front back : List α} (passes : forall elem, elem ∈ front -> test elem = true)
    (fails : forall elem, elem ∈ back -> test elem = false) : CutAt test (front ++ back) front.length := by
  refine ⟨by rw [List.length_append]; omega, fun k inside => ?_⟩
  by_cases early : k < front.length
  · rw [List.getElem_append_left early]
    exact iff_of_true (passes _ (List.getElem_mem early)) early
  · rw [List.length_append] at inside
    rw [List.getElem_append_right (Nat.le_of_not_lt early), fails _ (List.getElem_mem _)]
    exact iff_of_false Bool.false_ne_true early

theorem CutAt.standsAt {boundary : Nat} (cutAt : CutAt test row boundary) (holds : Holds heap.blocks s row)
    (answers : pred.Answers test) : StandsAt heap s pred boundary := by
  intro ctx
  refine ⟨ends_isPartitioned holds answers fun answer _ told => ⟨rfl, told.mpr cutAt.partitioned⟩, ?_⟩
  exact ends_partitionPoint holds fun place _ halved => ⟨rfl, halved.2 test boundary answers cutAt⟩

/-- Both partitions put the elems that pass in front in their order, and return how many they
are, which is what the scan and the binary search say afterwards; the stable one keeps the
others in their order too, and changes nothing when it has elems and is refused the buffer;
and a span is partitioned when no elem that passes follows one that does not. -/
theorem Holds.partitions {al : Al} (holds : Holds heap.blocks s elems) (answers : pred.Answers test)
    (real : al.isSome = true) (boundary : Nat) (ctx : C) :
    Ends (partition s pred ctx) heap (fun result later => exists rest,
        result.1 = elems.countP test ∧ later.blocks = place heap.blocks s (elems.filter test ++ rest) ∧
        rest.Perm (elems.filter fun elem => !test elem) ∧ (elems.filter test ++ rest).Perm elems ∧
        CutAt test (elems.filter test ++ rest) result.1 ∧ StandsAt later s pred result.1) ∧
      Ends (partitionStable s pred ctx al boundary) heap (fun result later =>
        (result.1 = .errNoMem ∧ elems ≠ [] ∧ ¬ heap.Grants ∧ result.2.1 = boundary ∧ later.blocks = heap.blocks) ∨
        (result.1 = .ok ∧ (elems = [] ∨ heap.Grants) ∧ result.2.1 = elems.countP test ∧
          later.blocks = place heap.blocks s (elems.filter test ++ elems.filter fun elem => !test elem) ∧
          StandsAt later s pred result.2.1)) ∧
      Ends (isPartitioned s pred ctx) heap (fun result later => later = heap ∧
        (result.1 = true <-> Partitioned test elems)) := by
  have kept : (sift pred ctx elems).1 = elems.filter test := sift_eq_filter answers
  have others : (sift (negated pred) ctx elems).1 = elems.filter fun elem => !test elem := by
    apply sift_eq_filter
    intro elem ctx
    rw [negated, answers]
  have passes : forall elem, elem ∈ elems.filter test -> test elem = true :=
    fun elem member => (List.mem_filter.mp member).2
  have fails : forall elem, elem ∈ (elems.filter fun elem => !test elem) -> test elem = false := by
    intro elem member
    simpa only [Bool.not_eq_true'] using (List.mem_filter.mp member).2
  have number : (elems.filter test).length = elems.countP test := List.countP_eq_length_filter.symm
  have all : (elems.filter test ++ elems.filter fun elem => !test elem).Perm elems := List.filter_append_perm test elems
  have stands : forall (rest : List α) (later : SpanMem α), rest.Perm (elems.filter fun elem => !test elem) ->
      later.blocks = place heap.blocks s (elems.filter test ++ rest) ->
      CutAt test (elems.filter test ++ rest) (elems.countP test) ∧ StandsAt later s pred (elems.countP test) := by
    intro rest later perm put
    have cutAt := CutAt.append passes fun elem member => fails elem (perm.mem_iff.mp member)
    have now : Holds later.blocks s (elems.filter test ++ rest) := by
      rw [put]
      exact holds.placed ((perm.append_left _).trans all).length_eq
    rw [number] at cutAt
    exact ⟨cutAt, cutAt.standsAt now answers⟩
  refine ⟨?_, ?_, ends_isPartitioned holds answers fun _ _ told => ⟨rfl, told⟩⟩
  · apply ends_partition holds
    intro rest later perm put
    rw [kept] at put ⊢
    rw [others] at perm
    rw [number]
    have after := stands rest later perm put
    exact ⟨rest, rfl, put, perm, (perm.append_left _).trans all, after.1, after.2⟩
  · apply ends_partitionStable holds real
    · exact fun some_ denied later same => Or.inl ⟨rfl, some_, denied, rfl, same⟩
    · intro served later put
      rw [kept, others] at put
      rw [kept, number]
      exact Or.inr ⟨rfl, served, rfl, put, (stands _ later (List.Perm.refl _) put).2⟩

/-- Numbers from 8 on. -/
def fromEight : Pred Nat Unit := fun elem ctx => (decide (8 ≤ elem), ctx)

/-- One row, partitioned without a buffer, with one, and refused one. -/
theorem partitions_row :
    Ends (partition (rowSpan 0 4) fromEight ()) (rowsMem [[7, 9, 6, 8]]) (fun result later =>
      result.1 = 2 ∧ StandsAt later (rowSpan 0 4) fromEight 2) ∧
    Ends (partitionStable (rowSpan 0 4) fromEight () (some 0) 0) (lendingMem [[7, 9, 6, 8]]) (fun result later =>
      result.2.1 = 2 ∧ later.blocks = place (lendingMem [[7, 9, 6, 8]]).blocks (rowSpan 0 4) [9, 8, 7, 6]) ∧
    Ends (partitionStable (rowSpan 0 4) fromEight () (some 0) 0) (rowsMem [[7, 9, 6, 8]]) fun result later =>
      result.2.1 = 0 ∧ later.blocks = (rowsMem [[7, 9, 6, 8]]).blocks := by
  have row : Holds (rowsMem [[7, 9, 6, 8]]).blocks (rowSpan 0 4) [7, 9, 6, 8] :=
    rowsMem_holds rfl (show [7, 9, 6, 8].length < sizeRange by decide)
  have lent : Holds (lendingMem [[7, 9, 6, 8]]).blocks (rowSpan 0 4) [7, 9, 6, 8] := row
  have answers : fromEight.Answers fun elem => decide (8 ≤ elem) := fun _ _ => rfl
  have real : (some 0 : Al).isSome = true := rfl
  refine ⟨(row.partitions answers real 0 ()).1.mono ?_, (lent.partitions answers real 0 ()).2.1.mono ?_,
    (row.partitions answers real 0 ()).2.1.mono ?_⟩
  · rintro ⟨boundary, _⟩ later ⟨_, same, _, _, _, _, stands⟩
    have two : boundary = 2 := same
    exact ⟨two, two ▸ stands⟩
  · rintro result later (⟨_, _, denied, _⟩ | ⟨_, _, boundary, put, _⟩)
    · exact absurd (lendingMem_grants _) denied
    · exact ⟨boundary, put⟩
  · rintro result later (⟨_, _, _, kept, same⟩ | ⟨_, served, _⟩)
    · exact ⟨kept, same⟩
    · exact absurd served (not_or.mpr ⟨List.cons_ne_nil _ _, rowsMem_denies _⟩)

end Span
end TerseDsa
