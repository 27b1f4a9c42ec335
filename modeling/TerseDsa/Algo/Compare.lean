import TerseDsa.Algo.Find
import TerseDsa.Foundation.Lexicographic

namespace TerseDsa

open Foundation Run

/-!
# `algo/compare`

Two spans are compared elem by elem.  Spans that start at one place and are as
long show the same elems, so that the elems need not be looked at.
-/

namespace Span

variable {α C : Type} {heap : SpanMem α} {a b c : Span} {elemsA elemsB elemsC : List α} {ctx : C} {out : Nat}

/-- The data pointers are the same. -/
def SamePlace (a b : Span) : Prop := a.data = b.data ∧ a.start = b.start

instance : Decidable (SamePlace a b) := inferInstanceAs (Decidable (_ ∧ _))

/-- `tda_span_eq_by`. -/
def eqBy (a b : Span) (eq : Equate α α C) (ctx : C) : Run (SpanMem α) (Bool × C) := do
  assertSpan a
  assertSpan b
  require (a.elem = b.elem)
  if a.len ≠ b.len then
    return (false, ctx)
  if a.len = 0 ∨ SamePlace a b then
    return (true, ctx)
  let round ← scanUp (fun i ctx => do
    let lhs ← get a i
    let rhs ← get b i
    let (same, ctx) := eq lhs rhs ctx
    if !same then
      return .leave (false, ctx)
    return .again ctx) a.len 0 ctx
  return round.close fun ctx => (true, ctx)

/-- `tda_span_mismatch`; `out` is what `out_idx` points at. -/
def mismatch (a b : Span) (eq : Equate α α C) (ctx : C) (out : Nat) : Run (SpanMem α) (Bool × Nat × C) := do
  assertSpan a
  assertSpan b
  require (a.elem = b.elem)
  if SamePlace a b ∧ a.len = b.len then
    return (false, out, ctx)
  let common := if a.len < b.len then a.len else b.len
  let round ← scanUp (fun i ctx => do
    let lhs ← get a i
    let rhs ← get b i
    let (same, ctx) := eq lhs rhs ctx
    if !same then
      return .leave (true, i, ctx)
    return .again ctx) common 0 ctx
  return round.close fun ctx => (false, out, ctx)

/-- What `tda_span_cmp` does with spans that are not the same. -/
def cmpElems (a b : Span) (cmp : Cmp α C) (ctx : C) : Run (SpanMem α) (Int × C) := do
  let common := if a.len < b.len then a.len else b.len
  let round ← scanUp (fun i ctx => do
    let lhs ← get a i
    let rhs ← get b i
    let (c, ctx) := cmp lhs rhs ctx
    if c ≠ 0 then
      return .leave (if c < 0 then -1 else 1, ctx)
    return .again ctx) common 0 ctx
  return round.close fun ctx => ((if a.len > b.len then 1 else 0) - (if a.len < b.len then 1 else 0), ctx)

/-- `tda_span_cmp`. -/
def cmp (a b : Span) (cmp : Cmp α C) (ctx : C) : Run (SpanMem α) (Int × C) := do
  assertSpan a
  assertSpan b
  require (a.elem = b.elem)
  if SamePlace a b ∧ a.len = b.len then
    return (0, ctx)
  cmpElems a b cmp ctx

/-! ## Equality -/

section Equality

variable {eq : Equate α α C} {same : α -> α -> Bool}

/-- Spans of one place and one length show the same elems. -/
theorem Holds.same_elems (holdsA : Holds heap.blocks a elemsA) (holdsB : Holds heap.blocks b elemsB)
    (alike : a.elem = b.elem) (here : SamePlace a b) (length : a.len = b.len) : elemsA = elemsB := by
  have spans : a = b := by
    cases a with
    | mk sliceA _ =>
        cases b with
        | mk sliceB _ =>
            cases sliceA
            cases sliceB
            dsimp only [SamePlace] at alike length here
            rw [here.1, here.2, length, alike]
  exact holdsA.unique (spans ▸ holdsB)

/-- Both rows have an elem at `k`, and these are not equal. -/
def Unequal (same : α -> α -> Bool) (elemsA elemsB : List α) (k : Nat) : Prop :=
  exists x y, elemsA[k]? = some x ∧ elemsB[k]? = some y ∧ same x y = false

theorem Unequal.inside {k : Nat} (unequal : Unequal same elemsA elemsB k) :
    k < elemsA.length ∧ k < elemsB.length := by
  rcases unequal with ⟨x, y, atA, atB, _⟩
  exact ⟨(List.getElem?_eq_some_iff.mp atA).1, (List.getElem?_eq_some_iff.mp atB).1⟩

theorem unequal_iff {k : Nat} (insideA : k < elemsA.length) (insideB : k < elemsB.length) :
    Unequal same elemsA elemsB k <-> same elemsA[k] elemsB[k] = false := by
  simp only [Unequal, List.getElem?_eq_getElem insideA, List.getElem?_eq_getElem insideB, Option.some_inj,
    exists_and_left, exists_eq_left']

/-- Rows of one length without unequal elems are equal elem by elem. -/
theorem forall₂_iff : List.Forall₂ (fun x y => same x y = true) elemsA elemsB <->
    elemsA.length = elemsB.length ∧ forall k, ¬ Unequal same elemsA elemsB k := by
  rw [List.forall₂_iff_get]
  refine and_congr_right fun length => ⟨fun all k unequal => ?_, fun none_ k insideA insideB => ?_⟩
  · have inside := unequal.inside
    rw [unequal_iff inside.1 inside.2] at unequal
    have equal := all k inside.1 inside.2
    rw [List.get_eq_getElem, List.get_eq_getElem, unequal] at equal
    cases equal
  · have equal := none_ k
    rw [unequal_iff insideA insideB] at equal
    exact eq_true_of_ne_false equal

theorem unequal_self (refl : forall x, same x x = true) (k : Nat) : ¬ Unequal same elemsA elemsA k := by
  rintro ⟨x, y, atA, atB, differ⟩
  rw [atA, Option.some_inj] at atB
  rw [← atB, refl] at differ
  cases differ

theorem ends_eqBy (holdsA : Holds heap.blocks a elemsA) (holdsB : Holds heap.blocks b elemsB)
    (alike : a.elem = b.elem) (answers : eq.Answers same) (refl : forall x, same x x = true)
    {post : Bool × C -> SpanMem α -> Prop}
    (done : forall equal ctx, (equal = true <-> List.Forall₂ (fun x y => same x y = true) elemsA elemsB) ->
      post (equal, ctx) heap) :
    Ends (eqBy a b eq ctx) heap post := by
  have lenA := holdsA.length
  have lenB := holdsB.length
  simp only [eqBy, ends_bind, ends_assertSpan (Over.asserts holdsA), ends_assertSpan (Over.asserts holdsB),
    ends_require, alike, true_and]
  simp only [forall₂_iff] at done
  by_cases lengths : a.len = b.len
  · rw [if_neg (not_not.mpr lengths)]
    by_cases short : a.len = 0 ∨ SamePlace a b
    · rw [if_pos short, ends_pure]
      refine done true ctx ⟨fun _ => ⟨by omega, fun k unequal => ?_⟩, fun _ => rfl⟩
      rcases short with nothing | here
      · exact absurd unequal.inside.1 (by omega)
      · rw [holdsA.same_elems holdsB alike here lengths] at unequal
        exact unequal_self refl k unequal
    · rw [if_neg short, ends_bind]
      apply ends_scanUp_first (Unequal same elemsA elemsB) (fun _ result => exists ctx, result = (false, ctx))
        (Nat.zero_add a.len)
      · intro i ctx _ below
        have insideA : i < elemsA.length := by omega
        have insideB : i < elemsB.length := by omega
        simp only [ends_bind, ends_get holdsA insideA, ends_get holdsB insideB, unequal_iff insideA insideB,
          answers elemsA[i] elemsB[i] ctx]
        cases same elemsA[i] elemsB[i] with
        | true => exact (ends_pure _ _ _).mpr ⟨rfl, Bool.true_eq_false_eq_False⟩
        | false => exact (ends_pure _ _ _).mpr ⟨rfl, rfl, _, rfl⟩
      · rintro i result _ _ here _ ⟨last, rfl⟩
        refine (ends_pure _ _ _).mpr (done false last ⟨fun impossible => absurd impossible Bool.false_ne_true, ?_⟩)
        exact fun all => absurd here (all.2 i)
      · intro last none_
        refine (ends_pure _ _ _).mpr (done true last ⟨fun _ => ⟨by omega, fun k unequal => ?_⟩, fun _ => rfl⟩)
        exact none_ k (Nat.zero_le k) (by have inside := unequal.inside; omega) unequal
  · rw [if_pos lengths, ends_pure]
    exact done false ctx ⟨fun impossible => absurd impossible Bool.false_ne_true, fun all => absurd all.1 (by omega)⟩

theorem ends_mismatch (holdsA : Holds heap.blocks a elemsA) (holdsB : Holds heap.blocks b elemsB)
    (alike : a.elem = b.elem) (answers : eq.Answers same) (refl : forall x, same x x = true)
    {post : Bool × Nat × C -> SpanMem α -> Prop}
    (done : forall differs idx ctx, First (Unequal same elemsA elemsB) out differs idx ->
      post (differs, idx, ctx) heap) :
    Ends (mismatch a b eq ctx out) heap post := by
  have lenA := holdsA.length
  have lenB := holdsB.length
  simp only [mismatch, ends_bind, ends_assertSpan (Over.asserts holdsA), ends_assertSpan (Over.asserts holdsB),
    ends_require, alike, true_and]
  by_cases short : SamePlace a b ∧ a.len = b.len
  · rw [if_pos short, ends_pure]
    refine done false out ctx (Or.inr ⟨rfl, rfl, fun k unequal => ?_⟩)
    rw [holdsA.same_elems holdsB alike short.1 short.2] at unequal
    exact unequal_self refl k unequal
  have both : forall k, k < (if a.len < b.len then a.len else b.len) <-> k < elemsA.length ∧ k < elemsB.length := by
    intro k
    split <;> omega
  rw [if_neg short, ends_bind]
  apply ends_scanUp_first (Unequal same elemsA elemsB) (fun i result => exists ctx, result = (true, i, ctx))
    (Nat.zero_add (if a.len < b.len then a.len else b.len))
  · intro i ctx _ below
    have insideA := ((both i).mp below).1
    have insideB := ((both i).mp below).2
    simp only [ends_bind, ends_get holdsA insideA, ends_get holdsB insideB, unequal_iff insideA insideB,
      answers elemsA[i] elemsB[i] ctx]
    cases same elemsA[i] elemsB[i] with
    | true => exact (ends_pure _ _ _).mpr ⟨rfl, Bool.true_eq_false_eq_False⟩
    | false => exact (ends_pure _ _ _).mpr ⟨rfl, rfl, _, rfl⟩
  · rintro i result _ _ here before ⟨last, rfl⟩
    exact (ends_pure _ _ _).mpr (done true i last (Or.inl ⟨rfl, here, fun k => before k (Nat.zero_le k)⟩))
  · intro last none_
    refine (ends_pure _ _ _).mpr (done false out last (Or.inr ⟨rfl, rfl, fun k unequal => ?_⟩))
    exact none_ k (Nat.zero_le k) ((both k).mpr unequal.inside) unequal

end Equality

/-! ## Order -/

section Order

variable {elemCmp : Cmp α C} {order : α -> α -> Int}

theorem signOrder (orders : elemCmp.Orders order) : SignOrder order := ⟨orders.antisymm, fun le also => orders.trans le also⟩

theorem ends_cmpElems (holdsA : Holds heap.blocks a elemsA) (holdsB : Holds heap.blocks b elemsB)
    (orders : elemCmp.Orders order) {post : Int × C -> SpanMem α -> Prop}
    (done : forall ctx, post (lexCompare order elemsA elemsB, ctx) heap) :
    Ends (cmpElems a b elemCmp ctx) heap post := by
  have lenA := holdsA.length
  have lenB := holdsB.length
  have both : forall k, k < (if a.len < b.len then a.len else b.len) <-> k < elemsA.length ∧ k < elemsB.length := by
    intro k
    split <;> omega
  simp only [cmpElems, ends_bind]
  apply ends_scanUp_first (DiffersAt order elemsA elemsB)
    (fun i result => exists ctx x y, elemsA[i]? = some x ∧ elemsB[i]? = some y ∧ order x y ≠ 0 ∧
      result = (if order x y < 0 then -1 else 1, ctx)) (Nat.zero_add (if a.len < b.len then a.len else b.len))
  · intro i ctx _ below
    have insideA := ((both i).mp below).1
    have insideB := ((both i).mp below).2
    simp only [ends_bind, ends_get holdsA insideA, ends_get holdsB insideB, orders.answers elemsA[i] elemsB[i] ctx,
      differsAt_iff insideA insideB]
    by_cases tie : order elemsA[i] elemsB[i] = 0
    · rw [if_neg (not_not.mpr tie)]
      exact (ends_pure _ _ _).mpr ⟨rfl, not_not.mpr tie⟩
    · rw [if_pos tie]
      exact (ends_pure _ _ _).mpr ⟨rfl, tie, _, _, _, List.getElem?_eq_getElem insideA,
        List.getElem?_eq_getElem insideB, tie, rfl⟩
  · rintro i result _ _ _ before ⟨last, x, y, atA, atB, differ, rfl⟩
    have decided := lexCompare_of_differs atA atB differ fun k => before k (Nat.zero_le k)
    have final := done last
    rw [decided] at final
    exact (ends_pure _ _ _).mpr final
  · intro last none_
    have never : forall k, ¬ DiffersAt order elemsA elemsB k := by
      intro k differs
      exact none_ k (Nat.zero_le k) ((both k).mpr differs.inside) differs
    have final := done last
    rw [lexCompare_of_none never, lenA, lenB] at final
    exact (ends_pure _ _ _).mpr final

/-- What tells the spans apart is in their elems: where they are does not matter. -/
theorem ends_cmp (holdsA : Holds heap.blocks a elemsA) (holdsB : Holds heap.blocks b elemsB)
    (alike : a.elem = b.elem) (orders : elemCmp.Orders order) {post : Int × C -> SpanMem α -> Prop}
    (done : forall ctx, post (lexCompare order elemsA elemsB, ctx) heap) :
    Ends (cmp a b elemCmp ctx) heap post := by
  simp only [cmp, ends_bind, ends_assertSpan (Over.asserts holdsA), ends_assertSpan (Over.asserts holdsB),
    ends_require, alike, true_and]
  by_cases short : SamePlace a b ∧ a.len = b.len
  · rw [if_pos short, ends_pure]
    have tie : lexCompare order elemsA elemsB = 0 := by
      rw [holdsA.same_elems holdsB alike short.1 short.2]
      exact (signOrder orders).lexCompare_self elemsB
    have final := done ctx
    rwa [tie] at final
  · rw [if_neg short]
    exact ends_cmpElems holdsA holdsB orders done

/-- The comparison comes to `val` whatever the state of the callback, and leaves the memory alone. -/
def ComesTo (heap : SpanMem α) (comparison : C -> Run (SpanMem α) (Int × C)) (val : Int) : Prop :=
  forall ctx, Ends (comparison ctx) heap fun result later => later = heap ∧ result.1 = val

/-- Spans of one layout are in a total preorder, wherever they lie: the signs are
antisymmetric and transitive; those tie that are as long and tie elem by elem, which is
when they are equal by an equality that says so of the elems; and looking at the elems
of spans that are the same would change nothing. -/
theorem cmp_preorder (orders : elemCmp.Orders order) (holdsA : Holds heap.blocks a elemsA)
    (holdsB : Holds heap.blocks b elemsB) (holdsC : Holds heap.blocks c elemsC) (alike : a.elem = b.elem)
    (alikeToo : b.elem = c.elem) :
    exists ab ba bc ac : Int,
      ComesTo heap (cmp a b elemCmp) ab ∧ ComesTo heap (cmp b a elemCmp) ba ∧ ComesTo heap (cmp b c elemCmp) bc ∧
      ComesTo heap (cmp a c elemCmp) ac ∧
      ab.sign = -ba.sign ∧
      (ab ≤ 0 -> bc ≤ 0 -> ac ≤ 0) ∧
      (ab = 0 <-> elemsA.length = elemsB.length ∧
        forall (k : Nat) (x y : α), elemsA[k]? = some x -> elemsB[k]? = some y -> order x y = 0) ∧
      (forall (eq : Equate α α C) (ctx : C), eq.Answers (fun x y => decide (order x y = 0)) ->
        Ends (eqBy a b eq ctx) heap fun result later => later = heap ∧ (result.1 = true <-> ab = 0)) ∧
      ComesTo heap (cmpElems a b elemCmp) ab := by
  have sign := signOrder orders
  have swap := sign.lexCompare_swap elemsA elemsB
  refine ⟨lexCompare order elemsA elemsB, lexCompare order elemsB elemsA, lexCompare order elemsB elemsC,
    lexCompare order elemsA elemsC, fun _ => ends_cmp holdsA holdsB alike orders fun _ => ⟨rfl, rfl⟩,
    fun _ => ends_cmp holdsB holdsA alike.symm orders fun _ => ⟨rfl, rfl⟩,
    fun _ => ends_cmp holdsB holdsC alikeToo orders fun _ => ⟨rfl, rfl⟩,
    fun _ => ends_cmp holdsA holdsC (alike.trans alikeToo) orders fun _ => ⟨rfl, rfl⟩, ?_,
    fun first second => sign.lexCompare_trans first second, ?_, ?_,
    fun _ => ends_cmpElems holdsA holdsB orders fun _ => ⟨rfl, rfl⟩⟩
  · rw [swap, Int.sign_neg]
  · rw [lexCompare_eq_zero, List.forall₂_iff_get]
    refine and_congr_right fun length => ⟨fun all k x y atA atB => ?_, fun all k insideA insideB => ?_⟩
    · rcases List.getElem?_eq_some_iff.mp atA with ⟨insideA, rfl⟩
      rcases List.getElem?_eq_some_iff.mp atB with ⟨insideB, rfl⟩
      exact all k insideA insideB
    · exact all k _ _ (List.getElem?_eq_getElem insideA) (List.getElem?_eq_getElem insideB)
  · intro eq ctx answers
    have refl : forall x, decide (order x x = 0) = true := fun x => decide_eq_true (sign.self_eq_zero x)
    apply ends_eqBy holdsA holdsB alike answers refl
    intro equal last told
    refine ⟨rfl, told.trans ?_⟩
    simp only [lexCompare_eq_zero, decide_eq_true_eq]

/-- A row, the front of it, and another row. -/
theorem cmp_preorder_rows :
    exists ab : Int, ComesTo (rowsMem [[7, 8, 9], [7, 8]]) (cmp ((rowSpan 0 3).part 0 2) (rowSpan 0 3) byValue) ab ∧
      ab ≠ 0 := by
  have whole_ : Holds (rowsMem [[7, 8, 9], [7, 8]]).blocks (rowSpan 0 3) [7, 8, 9] :=
    rowsMem_holds rfl (show [7, 8, 9].length < sizeRange by decide)
  have other : Holds (rowsMem [[7, 8, 9], [7, 8]]).blocks (rowSpan 1 2) [7, 8] :=
    rowsMem_holds rfl (show [7, 8].length < sizeRange by decide)
  have split : Holds (rowsMem [[7, 8, 9], [7, 8]]).blocks (rowSpan 0 3) ([] ++ [7, 8] ++ [9]) := whole_
  rcases cmp_preorder byValue_orders split.part whole_ other rfl rfl with ⟨ab, _, _, _, comes, _, _, _, _, _, zero, _⟩
  exact ⟨ab, comes, fun tie => absurd (zero.mp tie).1 (by decide)⟩

end Order

end Span
end TerseDsa
