import TerseDsa.Algo.Find
import TerseDsa.Algo.Search

namespace TerseDsa

open Foundation Run

/-!
# The binary searches agree

For a key of any type, the comparator's answers about the elems cut the span
where they stop being negative, and where they start being positive.  The
searches find these two places, or some place of the span if there are none.
-/

namespace Span

variable {α β C : Type} {heap : SpanMem α} {span : Span} {elems : List α} {cmp : α -> β -> C -> Int × C} {ctx : C}
  {key : β} {out : Nat}

theorem ends_lowerBound_halved (holds : Holds heap.blocks span elems) {post : Nat × C -> SpanMem α -> Prop}
    (done : forall place ctx, Halved (passing cmp false key) elems place -> post (place, ctx) heap) :
    Ends (lowerBound span key cmp ctx) heap post := by
  rw [lowerBound, ends_bind, ends_assertSpan (Over.asserts holds), bound_eq (Over.asserts holds)]
  exact ends_partitionPoint holds done

theorem ends_upperBound_halved (holds : Holds heap.blocks span elems) {post : Nat × C -> SpanMem α -> Prop}
    (done : forall place ctx, Halved (passing cmp true key) elems place -> post (place, ctx) heap) :
    Ends (upperBound span key cmp ctx) heap post := by
  rw [upperBound, ends_bind, ends_assertSpan (Over.asserts holds), bound_eq (Over.asserts holds)]
  exact ends_partitionPoint holds done

/-- What is searched for the upper bound is what is behind the lower one. -/
theorem ends_equalRange (holds : Holds heap.blocks span elems) {post : Range × C -> SpanMem α -> Prop}
    (done : forall lo more ctx, Halved (passing cmp false key) elems lo ->
      Halved (passing cmp true key) (elems.drop lo) more -> post (⟨lo, lo + more⟩, ctx) heap) :
    Ends (equalRange span key cmp ctx) heap post := by
  have length := holds.length
  simp only [equalRange, ends_bind, ends_assertSpan (Over.asserts holds)]
  apply ends_lowerBound_halved holds
  intro lo ctx halved
  have inside := halved.1
  simp only [ends_sub (Over.asserts holds) (show lo + (span.len - lo) ≤ span.len by omega)]
  apply ends_upperBound_halved (holds.dropped inside)
  intro more ctx halvedToo
  exact (ends_pure _ _ _).mpr (done lo more ctx halved halvedToo)

/-- What a binary search says, and leaves in a place that held `out`. -/
theorem ends_binarySearch (holds : Holds heap.blocks span elems) {post : Bool × Nat × C -> SpanMem α -> Prop}
    (done : forall lo before ctx, Halved (passing cmp false key) elems lo ->
      (exists elem, elems[lo]? = some elem ∧ (cmp elem key before).1 = 0) -> post (true, lo, ctx) heap)
    (missing : forall lo before ctx, Halved (passing cmp false key) elems lo ->
      (forall elem, elems[lo]? = some elem -> (cmp elem key before).1 ≠ 0) -> post (false, out, ctx) heap) :
    Ends (binarySearch span key cmp ctx out) heap post := by
  have length := holds.length
  simp only [binarySearch, ends_bind, ends_assertSpan (Over.asserts holds)]
  apply ends_lowerBound_halved holds
  intro lo ctx halved
  dsimp only
  by_cases behind : lo ≥ span.len
  · rw [if_pos behind]
    refine (ends_pure _ _ _).mpr (missing lo ctx ctx halved fun elem at_ => ?_)
    have inside := (List.getElem?_eq_some_iff.mp at_).1
    omega
  · have inside : lo < elems.length := by omega
    have here := List.getElem?_eq_getElem inside
    rw [if_neg behind, ends_bind, ends_get holds inside]
    by_cases equal : (cmp elems[lo] key ctx).1 = 0
    · rw [if_pos equal]
      exact (ends_pure _ _ _).mpr (done lo ctx _ halved ⟨_, here, equal⟩)
    · rw [if_neg equal]
      refine (ends_pure _ _ _).mpr (missing lo ctx _ halved fun elem at_ => ?_)
      rw [here, Option.some_inj] at at_
      rwa [← at_]

/-! ## With two cuts -/

/-- The answers about the elems are negative before `lower` and positive from `upper` on. -/
structure Cuts (cmp : α -> β -> C -> Int × C) (key : β) (elems : List α) (order : α -> Int) (lower upper : Nat) :
    Prop where
  answers : forall elem ctx, (cmp elem key ctx).1 = order elem
  less : CutAt (fun elem => decide (order elem < 0)) elems lower
  notMore : CutAt (fun elem => decide (order elem ≤ 0)) elems upper

namespace Cuts

variable {order : α -> Int} {lower upper place more : Nat} (cuts : Cuts cmp key elems order lower upper)

include cuts

theorem lower_eq (halved : Halved (passing cmp false key) elems place) : place = lower := by
  refine halved.2 _ lower (fun elem ctx => ?_) cuts.less
  rw [passing, cuts.answers]
  rfl

theorem answers_upper : Pred.Answers (passing cmp true key : Pred α C) fun elem => decide (order elem ≤ 0) := by
  intro elem ctx
  rw [passing, cuts.answers]
  rfl

theorem upper_eq (halved : Halved (passing cmp true key) elems place) : place = upper :=
  halved.2 _ upper cuts.answers_upper cuts.notMore

theorem lower_le : lower ≤ upper := by
  by_contra behind
  have inside : upper < elems.length := Nat.lt_of_lt_of_le (Nat.lt_of_not_le behind) cuts.less.1
  have negative := of_decide_eq_true ((cuts.less.2 upper inside).mpr (Nat.lt_of_not_le behind))
  exact absurd ((cuts.notMore.2 upper inside).mp (decide_eq_true (Int.le_of_lt negative))) (Nat.lt_irrefl upper)

/-- Behind the lower cut the upper one is as far as it was. -/
theorem upper_drop (halved : Halved (passing cmp true key) (elems.drop lower) more) : lower + more = upper := by
  have le := cuts.lower_le
  have fits := cuts.notMore.1
  have rest : CutAt (fun elem => decide (order elem ≤ 0)) (elems.drop lower) (upper - lower) := by
    refine ⟨by rw [List.length_drop]; omega, fun k inside => ?_⟩
    rw [List.length_drop] at inside
    rw [List.getElem_drop, cuts.notMore.2 (lower + k) (by omega)]
    omega
  have same := halved.2 _ _ cuts.answers_upper rest
  omega

/-- The elem at the lower cut ties with the key if it is before the upper one. -/
theorem tie_iff {elem : α} (at_ : elems[lower]? = some elem) : order elem = 0 <-> lower < upper := by
  rcases List.getElem?_eq_some_iff.mp at_ with ⟨inside, rfl⟩
  have notLess := cuts.less.2 lower inside
  have notMore := cuts.notMore.2 lower inside
  rw [decide_eq_true_eq] at notLess notMore
  rw [← notMore]
  have stays : ¬ order elems[lower] < 0 := fun less => absurd (notLess.mp less) (Nat.lt_irrefl lower)
  omega

end Cuts

/-- The run ends, its result is as said, and the memory is as it was. -/
def Finds {γ : Type} (heap : SpanMem α) (run : Run (SpanMem α) (γ × C)) (said : γ -> Prop) : Prop :=
  Ends run heap fun result later => later = heap ∧ said result.1

/-- Whatever the callbacks answer, the searches end and what they find is in the span; a
comparator whose answers cut the span has its two cuts found, and the first index between
them if there is one; and so has a predicate that holds in front only. -/
theorem Holds.binarySearches (holds : Holds heap.blocks span elems) (key : β) (cmp : α -> β -> C -> Int × C)
    (pred : Pred α C) (ctx : C) (out : Nat) :
    (Finds heap (lowerBound span key cmp ctx) (· ≤ span.len) ∧
      Finds heap (upperBound span key cmp ctx) (· ≤ span.len) ∧
      Finds heap (equalRange span key cmp ctx) (fun range => range.lo ≤ range.hi ∧ range.hi ≤ span.len) ∧
      Ends (binarySearch span key cmp ctx out) heap (fun result later => later = heap ∧
        (result.1 = true ∧ result.2.1 < span.len ∨ result.1 = false ∧ result.2.1 = out)) ∧
      Finds heap (partitionPoint span pred ctx) (· ≤ span.len)) ∧
    (forall order lower upper, Cuts cmp key elems order lower upper ->
      Finds heap (lowerBound span key cmp ctx) (· = lower) ∧
      Finds heap (upperBound span key cmp ctx) (· = upper) ∧
      Finds heap (equalRange span key cmp ctx) (· = ⟨lower, upper⟩) ∧
      Ends (binarySearch span key cmp ctx out) heap (fun result later => later = heap ∧
        (lower < upper -> result.1 = true ∧ result.2.1 = lower) ∧
        (¬ lower < upper -> result.1 = false ∧ result.2.1 = out))) ∧
    (forall test cut, pred.Answers test -> CutAt test elems cut ->
      Finds heap (partitionPoint span pred ctx) (· = cut)) := by
  have length := holds.length
  refine ⟨⟨?_, ?_, ?_, ?_, ?_⟩, ?_, ?_⟩
  · exact ends_lowerBound_halved holds fun place _ halved => ⟨rfl, length ▸ halved.1⟩
  · exact ends_upperBound_halved holds fun place _ halved => ⟨rfl, length ▸ halved.1⟩
  · apply ends_equalRange holds
    intro lo more _ halved halvedToo
    have first := halved.1
    have second := halvedToo.1
    rw [List.length_drop] at second
    exact ⟨rfl, Nat.le_add_right lo more, by dsimp only; omega⟩
  · apply ends_binarySearch holds
    · rintro lo _ _ _ ⟨elem, at_, _⟩
      exact ⟨rfl, Or.inl ⟨rfl, length ▸ (List.getElem?_eq_some_iff.mp at_).1⟩⟩
    · exact fun _ _ _ _ _ => ⟨rfl, Or.inr ⟨rfl, rfl⟩⟩
  · exact ends_partitionPoint holds fun place _ halved => ⟨rfl, length ▸ halved.1⟩
  · intro order lower upper cuts
    refine ⟨?_, ?_, ?_, ?_⟩
    · exact ends_lowerBound_halved holds fun place _ halved => ⟨rfl, cuts.lower_eq halved⟩
    · exact ends_upperBound_halved holds fun place _ halved => ⟨rfl, cuts.upper_eq halved⟩
    · apply ends_equalRange holds
      intro lo more _ halved halvedToo
      have first := cuts.lower_eq halved
      subst first
      exact ⟨rfl, by rw [cuts.upper_drop halvedToo]⟩
    · apply ends_binarySearch holds
      · rintro lo before _ halved ⟨elem, at_, tie⟩
        have first := cuts.lower_eq halved
        subst first
        rw [cuts.answers] at tie
        have some_ := (cuts.tie_iff at_).mp tie
        exact ⟨rfl, fun _ => ⟨rfl, rfl⟩, fun none_ => absurd some_ none_⟩
      · intro lo before _ halved none_
        have first := cuts.lower_eq halved
        subst first
        refine ⟨rfl, fun some_ => ?_, fun _ => ⟨rfl, rfl⟩⟩
        have inside : lo < elems.length := Nat.lt_of_lt_of_le some_ cuts.notMore.1
        have here := List.getElem?_eq_getElem inside
        have tie := (cuts.tie_iff here).mpr some_
        rw [← cuts.answers elems[lo] before] at tie
        exact absurd tie (none_ _ here)
  · intro test cut answers cutAt
    exact ends_partitionPoint holds fun place _ halved => ⟨rfl, halved.2 test cut answers cutAt⟩

/-- A number and a key that has one in it. -/
def byKey : Nat -> Nat × Bool -> Unit -> Int × Unit := fun elem key ctx => ((elem : Int) - key.1, ctx)

theorem binarySearches_row :
    Ends (binarySearch (rowSpan 0 4) (8, true) byKey () 9) (rowsMem [[7, 8, 8, 9]])
      fun result _ => result.1 = true ∧ result.2.1 = 1 := by
  have row : Holds (rowsMem [[7, 8, 8, 9]]).blocks (rowSpan 0 4) [7, 8, 8, 9] :=
    rowsMem_holds rfl (show [7, 8, 8, 9].length < sizeRange by decide)
  have cuts : Cuts byKey (8, true) [7, 8, 8, 9] (fun elem => (elem : Int) - 8) 1 3 :=
    ⟨fun _ _ => rfl, ⟨by decide, by decide⟩, ⟨by decide, by decide⟩⟩
  have none_ : Pred Nat Unit := fun _ ctx => (false, ctx)
  have found := ((row.binarySearches (8, true) byKey none_ () 9).2.1 _ 1 3 cuts).2.2.2
  exact found.mono fun _ _ result => result.2.1 (by decide)

end Span
end TerseDsa
