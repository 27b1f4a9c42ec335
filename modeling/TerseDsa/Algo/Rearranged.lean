import TerseDsa.Algo.Compare
import TerseDsa.Foundation.Classes

namespace TerseDsa

open Foundation Run

/-!
# `tda_span_is_permutation`

The elems in front that are equal in pairs are left out.  Of the others each is
counted where its class is met for the first time; a class that is in the
second span only shows as a lack in another one, for the spans are as long.
-/

namespace Span

variable {α C : Type} {heap : SpanMem α} {a b : Span} {elemsA elemsB restA restB : List α} {ctx : C}
  {eq : Equate α α C} {same : α -> α -> Bool}

/-- `tda_span_is_permutation`. -/
def isPermutation (a b : Span) (eq : Equate α α C) (ctx : C) : Run (SpanMem α) (Bool × C) := do
  assertSpan a
  assertSpan b
  require (a.elem = b.elem)
  if a.len ≠ b.len then
    return (false, ctx)
  let (differs, start, ctx) ← mismatch a b eq ctx 0
  if !differs then
    return (true, ctx)
  let restA ← sub a start (a.len - start)
  let restB ← sub b start (b.len - start)
  let round ← scanUp (fun i ctx => do
    let elem ← get restA i
    let before ← sub restA 0 i
    let (seen, ctx) ← contains before elem eq ctx
    -- an elem seen earlier was already counted, all its copies at once
    if seen then
      return .again ctx
    let (inB, ctx) ← count restB elem eq ctx
    if inB = 0 then
      return .leave (false, ctx)
    let behind ← sub restA i (restA.len - i)
    let (inA, ctx) ← count behind elem eq ctx
    if inB ≠ inA then
      return .leave (false, ctx)
    return .again ctx) restA.len 0 ctx
  return round.close fun ctx => (true, ctx)

/-- The class of the elem at `i` is met there for the first time, and is not as large in the
second row. -/
def Unbalanced (same : α -> α -> Bool) (restA restB : List α) (i : Nat) : Prop :=
  exists elem, restA[i]? = some elem ∧ (forall x, x ∈ restA.take i -> same x elem = false) ∧
    restA.countP (same · elem) ≠ restB.countP (same · elem)

/-- Every class is met for the first time somewhere. -/
theorem balanced_iff_never (equivalence : Equivalence fun x y => same x y = true)
    (length : restA.length = restB.length) :
    Balanced same restA restB <-> forall i, ¬ Unbalanced same restA restB i := by
  constructor
  · rintro balanced i ⟨elem, _, _, differ⟩
    exact differ (balanced elem)
  · intro never
    apply balanced_of_members equivalence length
    -- by the place of the elem: it is the first of its class, or an earlier one is equal to it
    have each : forall i (inside : i < restA.length),
        restA.countP (same · restA[i]) = restB.countP (same · restA[i]) := by
      intro i
      induction i using Nat.strongRecOn with
      | ind i ih =>
          intro inside
          by_cases seen : exists x, x ∈ restA.take i ∧ same x restA[i] = true
          · rcases seen with ⟨x, member, equal⟩
            rcases List.getElem_of_mem member with ⟨k, below, rfl⟩
            rw [List.length_take] at below
            rw [List.getElem_take] at equal
            have counts := ih k (by omega) (by omega)
            simpa only [same_congr_right equivalence equal] using counts
          · by_contra differ
            refine never i ⟨_, List.getElem?_eq_getElem inside, fun x member => ?_, differ⟩
            exact Bool.eq_false_iff.mpr fun equal => seen ⟨x, member, equal⟩
    intro x member
    rcases List.getElem_of_mem member with ⟨i, inside, rfl⟩
    exact each i inside

/-- What is not in front of an elem is behind it. -/
theorem countP_drop {i : Nat} {elem : α} (fresh : forall x, x ∈ restA.take i -> same x elem = false) :
    (restA.drop i).countP (same · elem) = restA.countP (same · elem) := by
  have front : (restA.take i).countP (same · elem) = 0 :=
    List.countP_eq_zero.mpr fun x member => Bool.not_eq_true _ ▸ fresh x member
  have whole := congrArg (List.countP (same · elem)) (List.take_append_drop i restA)
  rw [List.countP_append, front, Nat.zero_add] at whole
  exact whole

/-- The loop leaves at the first class that is not as large in the second row. -/
theorem ends_counting (holdsA : Holds heap.blocks a restA) (holdsB : Holds heap.blocks b restB)
    (answers : eq.Answers same) (refl : forall x, same x x = true) {i : Nat} (inside : i < restA.length) :
    Ends (do
      let elem ← get a i
      let before ← sub a 0 i
      let (seen, ctx) ← contains before elem eq ctx
      if seen then
        return .again ctx
      let (inB, ctx) ← count b elem eq ctx
      if inB = 0 then
        return .leave (false, ctx)
      let behind ← sub a i (a.len - i)
      let (inA, ctx) ← count behind elem eq ctx
      if inB ≠ inA then
        return .leave (false, ctx)
      return .again ctx : Run (SpanMem α) (Run.Round C (Bool × C))) heap fun round later => later = heap ∧
        round.Meets (fun _ => ¬ Unbalanced same restA restB i) fun result =>
          Unbalanced same restA restB i ∧ result.1 = false := by
  have len := holdsA.length
  have here := List.getElem?_eq_getElem inside
  simp only [ends_bind, ends_get holdsA inside,
    ends_sub (Over.asserts holdsA) (show 0 + i ≤ a.len by omega)]
  apply ends_contains (holdsA.taken (Nat.le_of_lt inside)) answers
  intro seen ctx told
  cases seen with
  | true =>
      refine (ends_pure _ _ _).mpr ⟨rfl, ?_⟩
      rintro ⟨elem, at_, fresh, _⟩
      rcases told.mp rfl with ⟨x, member, equal⟩
      rw [here, Option.some_inj] at at_
      rw [at_, fresh x member] at equal
      cases equal
  | false =>
      have fresh : forall x, x ∈ restA.take i -> same x restA[i] = false := by
        intro x member
        exact Bool.eq_false_iff.mpr fun equal => Bool.false_ne_true (told.mpr ⟨x, member, equal⟩)
      have counted := countP_drop fresh
      have some_ : 0 < restA.countP (same · restA[i]) :=
        List.countP_pos_iff.mpr ⟨_, List.getElem_mem inside, refl _⟩
      simp only [Bool.false_eq_true, if_false, ends_bind]
      apply ends_count holdsB answers
      intro ctx
      by_cases nothing : restB.countP (same · restA[i]) = 0
      · rw [if_pos nothing]
        exact (ends_pure _ _ _).mpr ⟨rfl, ⟨_, here, fresh, by omega⟩, rfl⟩
      · rw [if_neg nothing]
        simp only [ends_bind, ends_sub (Over.asserts holdsA) (show i + (a.len - i) ≤ a.len by omega)]
        apply ends_count (holdsA.dropped (Nat.le_of_lt inside)) answers
        intro ctx
        rw [counted]
        by_cases differ : restB.countP (same · restA[i]) ≠ restA.countP (same · restA[i])
        · rw [if_pos differ]
          exact (ends_pure _ _ _).mpr ⟨rfl, ⟨_, here, fresh, Ne.symm differ⟩, rfl⟩
        · rw [if_neg differ]
          refine (ends_pure _ _ _).mpr ⟨rfl, ?_⟩
          rintro ⟨elem, at_, _, apart⟩
          rw [here, Option.some_inj] at at_
          rw [← at_] at apart
          exact apart (not_not.mp differ).symm

theorem ends_isPermutation (holdsA : Holds heap.blocks a elemsA) (holdsB : Holds heap.blocks b elemsB)
    (alike : a.elem = b.elem) (answers : eq.Answers same) (equivalence : Equivalence fun x y => same x y = true)
    {post : Bool × C -> SpanMem α -> Prop}
    (done : forall answer ctx, (answer = true <-> Balanced same elemsA elemsB) -> post (answer, ctx) heap) :
    Ends (isPermutation a b eq ctx) heap post := by
  have lenA := holdsA.length
  have lenB := holdsB.length
  have refl : forall x, same x x = true := equivalence.refl
  simp only [isPermutation, ends_bind, ends_assertSpan (Over.asserts holdsA),
    ends_assertSpan (Over.asserts holdsB), ends_require, alike, true_and]
  by_cases lengths : a.len = b.len
  · rw [if_neg (not_not.mpr lengths), ends_bind]
    apply ends_mismatch holdsA holdsB alike answers refl
    intro differs start ctx first
    cases differs with
    | false =>
        refine (ends_pure _ _ _).mpr (done true ctx ⟨fun _ => ?_, fun _ => rfl⟩)
        rcases first with ⟨impossible, _⟩ | ⟨_, _, none_⟩
        · cases impossible
        · exact balanced_of_forall₂ equivalence (forall₂_iff.mpr ⟨by omega, none_⟩)
    | true =>
        rcases first with ⟨_, here, before⟩ | ⟨impossible, _⟩
        · have insideA := here.inside.1
          have insideB := here.inside.2
          have front : Balanced same (elemsA.take start) (elemsB.take start) := by
            apply balanced_of_forall₂ equivalence
            refine forall₂_iff.mpr ⟨by rw [List.length_take, List.length_take]; omega, ?_⟩
            rintro k ⟨x, y, atA, atB, differ⟩
            have early : k < start := by
              have below := (List.getElem?_eq_some_iff.mp atA).1
              rw [List.length_take] at below
              omega
            rw [List.getElem?_take_of_lt early] at atA atB
            exact before k early ⟨x, y, atA, atB, differ⟩
          have lengthRest : (elemsA.drop start).length = (elemsB.drop start).length := by
            rw [List.length_drop, List.length_drop]
            omega
          have rests : Balanced same elemsA elemsB <->
              forall i, ¬ Unbalanced same (elemsA.drop start) (elemsB.drop start) i := by
            have whole_ : Balanced same elemsA elemsB <-> Balanced same (elemsA.take start ++ elemsA.drop start)
                (elemsB.take start ++ elemsB.drop start) := by
              rw [List.take_append_drop, List.take_append_drop]
            rw [whole_, front.append_iff, balanced_iff_never equivalence lengthRest]
          have holdsRestA := holdsA.dropped (Nat.le_of_lt insideA)
          have holdsRestB := holdsB.dropped (Nat.le_of_lt insideB)
          have lenRest := holdsRestA.length
          simp only [Bool.not_true, Bool.false_eq_true, if_false, ends_bind,
            ends_sub (Over.asserts holdsA) (show start + (a.len - start) ≤ a.len by omega),
            ends_sub (Over.asserts holdsB) (show start + (b.len - start) ≤ b.len by omega)]
          apply ends_scanUp_first (Unbalanced same (elemsA.drop start) (elemsB.drop start))
            (fun _ result => result.1 = false) (Nat.zero_add (a.part start (a.len - start)).len)
          · intro i ctx _ below
            exact ends_counting holdsRestA holdsRestB answers refl (lenRest ▸ below)
          · rintro i ⟨answer, last⟩ _ _ differs _ no
            refine (ends_pure _ _ _).mpr (done answer last ⟨fun yes => ?_, fun balanced => ?_⟩)
            · exact absurd (no.symm.trans yes) Bool.false_ne_true
            · exact absurd differs (rests.mp balanced i)
          · intro last none_
            refine (ends_pure _ _ _).mpr (done true last ⟨fun _ => rests.mpr fun i differs => ?_, fun _ => rfl⟩)
            rcases differs with ⟨elem, at_, rest⟩
            have below := (List.getElem?_eq_some_iff.mp at_).1
            exact none_ i (Nat.zero_le i) (lenRest ▸ below) ⟨elem, at_, rest⟩
        · cases impossible
  · rw [if_pos lengths, ends_pure]
    refine done false ctx ⟨fun impossible => absurd impossible Bool.false_ne_true, fun balanced => ?_⟩
    exact absurd (balanced.length_eq equivalence) (by omega)

/-! ## The result -/

/-- The run gives the answer and leaves the memory alone. -/
def Gives (heap : SpanMem α) (run : Run (SpanMem α) (Bool × C)) (answer : Bool) : Prop :=
  Ends run heap fun result later => later = heap ∧ result.1 = answer

theorem gives_isPermutation (holdsA : Holds heap.blocks a elemsA) (holdsB : Holds heap.blocks b elemsB)
    (alike : a.elem = b.elem) (answers : eq.Answers same) (equivalence : Equivalence fun x y => same x y = true)
    {answer : Bool} (told : answer = true <-> Balanced same elemsA elemsB) : Gives heap (isPermutation a b eq ctx) answer := by
  apply ends_isPermutation holdsA holdsB alike answers equivalence
  intro also _ toldToo
  exact ⟨rfl, Bool.eq_iff_iff.mpr (toldToo.trans told.symm)⟩

open Classical in
/-- For every equivalence, whether the spans are permutations of each other is whether each class
has as many elems in the one as in the other, so that they are as long; it is the same the
other way around, and after the elems of either were rearranged. -/
theorem Holds.permutations (holdsA : Holds heap.blocks a elemsA) (holdsB : Holds heap.blocks b elemsB)
    (alike : a.elem = b.elem) (answers : eq.Answers same) (equivalence : Equivalence fun x y => same x y = true)
    (ctx : C) :
    exists answer : Bool,
      (answer = true <-> forall key, elemsA.countP (same · key) = elemsB.countP (same · key)) ∧
      (answer = true -> elemsA.length = elemsB.length) ∧
      Gives heap (isPermutation a b eq ctx) answer ∧
      Gives heap (isPermutation b a eq ctx) answer ∧
      (forall (other : SpanMem α) (a' b' : Span) (rowA rowB : List α), rowA.Perm elemsA -> rowB.Perm elemsB ->
        Holds other.blocks a' rowA -> Holds other.blocks b' rowB -> a'.elem = b'.elem ->
        Gives other (isPermutation a' b' eq ctx) answer) := by
  have told : decide (Balanced same elemsA elemsB) = true <-> Balanced same elemsA elemsB := decide_eq_true_iff
  refine ⟨decide (Balanced same elemsA elemsB), told, fun yes => (told.mp yes).length_eq equivalence,
    gives_isPermutation holdsA holdsB alike answers equivalence told,
    gives_isPermutation holdsB holdsA alike.symm answers equivalence (told.trans ⟨Balanced.symm, Balanced.symm⟩), ?_⟩
  intro other a' b' rowA rowB permA permB holdsA' holdsB' alike'
  apply gives_isPermutation holdsA' holdsB' alike' answers equivalence
  have first : Balanced same rowA elemsA := Balanced.of_perm permA
  have second : Balanced same rowB elemsB := Balanced.of_perm permB
  rw [told]
  exact ⟨fun balanced => (first.trans balanced).trans second.symm,
    fun balanced => (first.symm.trans balanced).trans second⟩

theorem permutations_rows :
    Gives (rowsMem [[7, 8, 7], [8, 7, 7]]) (isPermutation (rowSpan 0 3) (rowSpan 1 3) sameNumber ()) true := by
  have first : Holds (rowsMem [[7, 8, 7], [8, 7, 7]]).blocks (rowSpan 0 3) [7, 8, 7] :=
    rowsMem_holds rfl (show [7, 8, 7].length < sizeRange by decide)
  have second : Holds (rowsMem [[7, 8, 7], [8, 7, 7]]).blocks (rowSpan 1 3) [8, 7, 7] :=
    rowsMem_holds rfl (show [8, 7, 7].length < sizeRange by decide)
  have answers : sameNumber.Answers fun lhs rhs => decide (lhs = rhs) := fun _ _ _ => rfl
  have equivalence : Equivalence fun x y : Nat => decide (x = y) = true := by
    simp only [decide_eq_true_eq]
    exact eq_equivalence
  rcases first.permutations second rfl answers equivalence () with ⟨answer, told, _, said, _⟩
  have balanced : Balanced (fun x y : Nat => decide (x = y)) [7, 8, 7] [8, 7, 7] := Balanced.of_perm (by decide)
  rwa [told.mpr balanced] at said

end Span
end TerseDsa
