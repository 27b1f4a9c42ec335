import TerseDsa.Algo.Filter
import TerseDsa.Algo.Find
import TerseDsa.Algo.Quicksort
import TerseDsa.Algo.Search
import TerseDsa.Foundation.Lexicographic

namespace TerseDsa

open Foundation Run

/-!
# The queries of `algo/search`, and how far a span is sorted

The walks that ask a predicate or an equality about one elem after the other, those
that keep the best elem so far, and the one that compares neighbours.
-/

namespace Span

variable {α β C : Type} {heap : SpanMem α} {s : Span} {elems : List α} {ctx : C} {out idx : Nat}

/-! ## By a predicate -/

/-- `tda_span_find_if`. -/
def findIf (s : Span) (pred : Pred α C) (ctx : C) (out : Nat) : Run (SpanMem α) (Bool × Nat × C) := do
  assertSpan s
  let round ← scanUp (fun i ctx => do
    let elem ← get s i
    let (passes, ctx) := pred elem ctx
    if passes then
      return .leave (true, i, ctx)
    return .again ctx) s.len 0 ctx
  return round.close fun ctx => (false, out, ctx)

/-- `tda_span_find_last_if`. -/
def findLastIf (s : Span) (pred : Pred α C) (ctx : C) (out : Nat) : Run (SpanMem α) (Bool × Nat × C) := do
  assertSpan s
  let round ← scanDown (fun i ctx => do
    let elem ← get s i
    let (passes, ctx) := pred elem ctx
    if passes then
      return .leave (true, i, ctx)
    return .again ctx) s.len ctx
  return round.close fun ctx => (false, out, ctx)

/-- `tda_span_count_if`. -/
def countIf (s : Span) (pred : Pred α C) (ctx : C) : Run (SpanMem α) (Nat × C) := do
  assertSpan s
  countUp (fun i vars => do
    let elem ← get s i
    let (passes, ctx) := pred elem vars.2
    return (if passes then vars.1 + 1 else vars.1, ctx)) s.len 0 (0, ctx)

/-- `tda_span_all_of`. -/
def allOf (s : Span) (pred : Pred α C) (ctx : C) : Run (SpanMem α) (Bool × C) := do
  assertSpan s
  let round ← scanUp (fun i ctx => do
    let elem ← get s i
    let (passes, ctx) := pred elem ctx
    if !passes then
      return .leave (false, ctx)
    return .again ctx) s.len 0 ctx
  return round.close fun ctx => (true, ctx)

/-- `tda_span_any_of`. -/
def anyOf (s : Span) (pred : Pred α C) (ctx : C) : Run (SpanMem α) (Bool × C) := do
  assertSpan s
  let (found, _, ctx) ← findIf s pred ctx 0
  return (found, ctx)

/-- `tda_span_none_of`. -/
def noneOf (s : Span) (pred : Pred α C) (ctx : C) : Run (SpanMem α) (Bool × C) := do
  assertSpan s
  let (found, ctx) ← anyOf s pred ctx
  return (!found, ctx)

/-! ## By an equality -/

/-- `tda_span_find_last`. -/
def findLast (s : Span) (key : β) (eq : Equate α β C) (ctx : C) (out : Nat) : Run (SpanMem α) (Bool × Nat × C) := do
  assertSpan s
  let round ← scanDown (fun i ctx => do
    let elem ← get s i
    let (same, ctx) := eq elem key ctx
    if same then
      return .leave (true, i, ctx)
    return .again ctx) s.len ctx
  return round.close fun ctx => (false, out, ctx)

/-- `tda_span_find_adjacent`. -/
def findAdjacent (s : Span) (eq : Equate α α C) (ctx : C) (out : Nat) : Run (SpanMem α) (Bool × Nat × C) := do
  assertSpan s
  let round ← scanUp (fun i ctx => do
    let left ← get s (i - 1)
    let right ← get s i
    let (same, ctx) := eq left right ctx
    if same then
      return .leave (true, i - 1, ctx)
    return .again ctx) (s.len - 1) 1 ctx
  return round.close fun ctx => (false, out, ctx)

/-! ## By an order -/

/-- `tda_MinMax`. -/
structure MinMax where
  min : Nat
  max : Nat
  deriving DecidableEq

/-- `beats`. -/
def beats (cmp : Cmp α C) (cur best : α) (max : Bool) (ctx : C) : Bool × C :=
  -- the max swaps the operands, so a tie keeps the first either way
  if max then (decide ((cmp best cur ctx).1 < 0), (cmp best cur ctx).2)
  else (decide ((cmp cur best ctx).1 < 0), (cmp cur best ctx).2)

/-- `extreme`. -/
def extreme (s : Span) (cmp : Cmp α C) (max : Bool) (ctx : C) : Run (SpanMem α) (Nat × C) := do
  let first ← get s 0
  let (best, _, ctx) ← countUp (fun i (vars : Nat × α × C) => do
    let (best, bestElem, ctx) := vars
    let cur ← get s i
    let (better, ctx) := beats cmp cur bestElem max ctx
    return if better then (i, cur, ctx) else (best, bestElem, ctx)) (s.len - 1) 1 (0, first, ctx)
  return (best, ctx)

/-- `tda_span_min_elem`. -/
def minElem (s : Span) (cmp : Cmp α C) (ctx : C) : Run (SpanMem α) (Nat × C) := do
  assertSpan s
  require (s.len > 0)
  extreme s cmp false ctx

/-- `tda_span_max_elem`. -/
def maxElem (s : Span) (cmp : Cmp α C) (ctx : C) : Run (SpanMem α) (Nat × C) := do
  assertSpan s
  require (s.len > 0)
  extreme s cmp true ctx

/-- `tda_span_minmax_elem`. -/
def minmaxElem (s : Span) (cmp : Cmp α C) (ctx : C) : Run (SpanMem α) (MinMax × C) := do
  assertSpan s
  require (s.len > 0)
  let first ← get s 0
  let (out, _, _, ctx) ← countUp (fun i (vars : MinMax × α × α × C) => do
    let (out, min, max, ctx) := vars
    let cur ← get s i
    let (less, ctx) := beats cmp cur min false ctx
    let (out, min) := if less then ({ out with min := i }, cur) else (out, min)
    let (more, ctx) := beats cmp cur max true ctx
    let (out, max) := if more then ({ out with max := i }, cur) else (out, max)
    return (out, min, max, ctx)) (s.len - 1) 1 (⟨0, 0⟩, first, first, ctx)
  return (out, ctx)

/-- `tda_span_is_sorted_until`. -/
def isSortedUntil (s : Span) (cmp : Cmp α C) (ctx : C) : Run (SpanMem α) (Nat × C) := do
  assertSpan s
  let round ← scanUp (fun i ctx => do
    let prev ← get s (i - 1)
    let cur ← get s i
    let (first, ctx) := rightGoesFirst cmp prev cur ctx
    if first then
      return .leave (i, ctx)
    return .again ctx) (s.len - 1) 1 ctx
  return round.close fun ctx => (s.len, ctx)

/-- `tda_span_is_sorted`. -/
def isSorted (s : Span) (cmp : Cmp α C) (ctx : C) : Run (SpanMem α) (Bool × C) := do
  assertSpan s
  let (until_, ctx) ← isSortedUntil s cmp ctx
  return (decide (until_ = s.len), ctx)

/-! ## What is found -/

section Found

variable {pred : Pred α C} {test : α -> Bool} {eq : Equate α β C} {same : α -> β -> Bool} {key : β}

/-- An elem at this place passes. -/
def PassesAt (test : α -> Bool) (elems : List α) (idx : Nat) : Prop :=
  exists elem, elems[idx]? = some elem ∧ test elem = true

/-- A predicate asks what an equality asks with a key that says nothing. -/
def alone (pred : Pred α C) : Equate α Unit C := fun elem _ => pred elem

theorem alone_answers (passes : pred.Answers test) : Equate.Answers (alone pred) fun elem (_ : Unit) => test elem :=
  fun elem _ => passes elem

theorem ends_findLast (holds : Holds heap.blocks s elems) (answers : eq.Answers same) :
    Ends (findLast s key eq ctx out) heap fun result later =>
      later = heap ∧ Last (Matches same elems key) out result.1 result.2.1 := by
  have len := holds.length
  simp only [findLast, ends_bind, ends_assertSpan (Over.asserts holds)]
  apply ends_scanDown_last (Matches same elems key) (fun i result => exists ctx, result = (true, i, ctx))
  · intro i ctx below
    have inside : i < elems.length := by omega
    simp only [ends_bind, ends_get holds inside, matches_iff inside, answers elems[i] key ctx]
    cases same elems[i] key with
    | true => exact (ends_pure _ _ _).mpr ⟨rfl, rfl, _, rfl⟩
    | false => exact (ends_pure _ _ _).mpr ⟨rfl, Bool.false_ne_true⟩
  · rintro i result _ here after ⟨last, rfl⟩
    refine (ends_pure _ _ _).mpr ⟨rfl, Or.inl ⟨rfl, here, fun k later also => ?_⟩⟩
    exact after k later (len ▸ also.inside) also
  · intro last none_
    exact (ends_pure _ _ _).mpr ⟨rfl, Or.inr ⟨rfl, rfl, fun k here => none_ k (len ▸ here.inside) here⟩⟩

theorem ends_allOf (holds : Holds heap.blocks s elems) (answers : pred.Answers test) :
    Ends (allOf s pred ctx) heap fun result later =>
      later = heap ∧ (result.1 = true <-> forall elem, elem ∈ elems -> test elem = true) := by
  have len := holds.length
  simp only [allOf, ends_bind, ends_assertSpan (Over.asserts holds)]
  apply ends_scanUp_first (fun i => exists elem, elems[i]? = some elem ∧ test elem = false)
    (fun _ result => exists ctx, result = (false, ctx)) (Nat.zero_add s.len)
  · intro i ctx _ below
    have inside : i < elems.length := by omega
    simp only [ends_bind, ends_get holds inside, answers elems[i] ctx, List.getElem?_eq_getElem inside,
      Option.some_inj, exists_eq_left']
    cases test elems[i] with
    | true => exact (ends_pure _ _ _).mpr ⟨rfl, Bool.true_eq_false_eq_False⟩
    | false => exact (ends_pure _ _ _).mpr ⟨rfl, rfl, _, rfl⟩
  · rintro i result _ _ ⟨elem, at_, misses⟩ _ ⟨last, rfl⟩
    refine (ends_pure _ _ _).mpr ⟨rfl, fun impossible => absurd impossible Bool.false_ne_true, fun all => ?_⟩
    exact absurd (misses.symm.trans (all elem (List.mem_of_getElem? at_))) Bool.false_ne_true
  · intro last none_
    refine (ends_pure _ _ _).mpr ⟨rfl, fun _ elem member => ?_, fun _ => rfl⟩
    by_contra misses
    rcases List.getElem?_of_mem member with ⟨k, at_⟩
    have below := (List.getElem?_eq_some_iff.mp at_).1
    exact none_ k (Nat.zero_le k) (by omega) ⟨elem, at_, Bool.eq_false_iff.mpr misses⟩

theorem ends_findIf (holds : Holds heap.blocks s elems) (passes : pred.Answers test) :
    Ends (findIf s pred ctx out) heap fun result later =>
      later = heap ∧ First (PassesAt test elems) out result.1 result.2.1 :=
  @ends_find _ _ _ _ _ _ _ out () _ _ holds (alone_answers passes) _ fun _ _ _ first => ⟨rfl, first⟩

theorem ends_findLastIf (holds : Holds heap.blocks s elems) (passes : pred.Answers test) :
    Ends (findLastIf s pred ctx out) heap fun result later =>
      later = heap ∧ Last (PassesAt test elems) out result.1 result.2.1 :=
  @ends_findLast _ _ _ _ _ _ _ out _ _ () holds (alone_answers passes)

theorem ends_countIf (holds : Holds heap.blocks s elems) (passes : pred.Answers test) :
    Ends (countIf s pred ctx) heap fun result later => later = heap ∧ result.1 = elems.countP test :=
  @ends_count _ _ _ _ _ _ _ () _ _ holds (alone_answers passes) _ fun _ => ⟨rfl, rfl⟩

theorem ends_anyOf (holds : Holds heap.blocks s elems) (passes : pred.Answers test) :
    Ends (anyOf s pred ctx) heap fun result later =>
      later = heap ∧ (result.1 = true <-> exists elem, elem ∈ elems ∧ test elem = true) :=
  @ends_contains _ _ _ _ _ _ _ () _ _ holds (alone_answers passes) _ fun _ _ told => ⟨rfl, told⟩

theorem ends_noneOf (holds : Holds heap.blocks s elems) (passes : pred.Answers test) :
    Ends (noneOf s pred ctx) heap fun result later =>
      later = heap ∧ (result.1 = true <-> forall elem, elem ∈ elems -> ¬ test elem = true) := by
  simp only [noneOf, ends_bind, ends_assertSpan (Over.asserts holds)]
  refine (ends_anyOf holds passes).mono ?_
  rintro result _ ⟨rfl, told⟩
  refine (ends_pure _ _ _).mpr ⟨rfl, ?_⟩
  rw [Bool.not_eq_true', Bool.eq_false_iff, ne_eq, told]
  constructor
  · exact fun none_ elem member passes => none_ ⟨elem, member, passes⟩
  · rintro all ⟨elem, member, passes⟩
    exact all elem member passes

end Found

/-! ## Neighbours -/

section Neighbours

variable {test : α -> α -> Bool}

/-- The elem at this place and the next one pass. -/
def Adjacent (test : α -> α -> Bool) (elems : List α) (idx : Nat) : Prop :=
  exists left right, elems[idx]? = some left ∧ elems[idx + 1]? = some right ∧ test left right = true

theorem adjacent_iff (inside : idx + 1 < elems.length) :
    Adjacent test elems idx <-> test elems[idx] elems[idx + 1] = true := by
  simp only [Adjacent, List.getElem?_eq_getElem inside, List.getElem?_eq_getElem (Nat.lt_of_succ_lt inside),
    Option.some_inj, exists_and_left, exists_eq_left']

theorem Adjacent.inside (here : Adjacent test elems idx) : idx + 1 < elems.length := by
  rcases here with ⟨_, _, _, next, _⟩
  exact (List.getElem?_eq_some_iff.mp next).1

/-- A scan that asks about each elem and the one before it stops at the first pair that passes. -/
theorem ends_neighbours {γ : Type} {body : Nat -> C -> Run (SpanMem α) (Run.Round C γ)}
    {post : Run.Round C γ -> SpanMem α -> Prop} (result : Nat -> C -> γ) (holds : Holds heap.blocks s elems)
    (step : forall i now (inside : i + 1 < elems.length), Ends (body (i + 1) now) heap fun round later =>
      later = heap ∧ round.Meets (fun _ => ¬ test elems[i] elems[i + 1] = true) fun told =>
        test elems[i] elems[i + 1] = true ∧ exists now, told = result i now)
    (found : forall i now, Adjacent test elems i -> (forall k, k < i -> ¬ Adjacent test elems k) ->
      post (.leave (result i now)) heap)
    (missing : forall now, (forall k, ¬ Adjacent test elems k) -> post (.again now) heap) :
    Ends (scanUp body (s.len - 1) 1 ctx) heap post := by
  have len := holds.length
  apply ends_scanUp_first (fun i => Adjacent test elems (i - 1))
    (fun i told => exists now, told = result (i - 1) now) rfl
  · intro i now low below
    rcases Nat.exists_eq_add_of_le' low with ⟨k, rfl⟩
    have inside : k + 1 < elems.length := by omega
    simp only [Nat.add_sub_cancel, adjacent_iff inside]
    exact step k now inside
  · rintro i told low _ here before ⟨now, rfl⟩
    exact found (i - 1) now here fun k early => before (k + 1) (Nat.succ_pos k) (by omega)
  · intro now none_
    refine missing now fun k here => none_ (k + 1) (Nat.succ_pos k) ?_ here
    have inside := here.inside
    omega

theorem ends_findAdjacent {alike : Equate α α C} (holds : Holds heap.blocks s elems) (answers : alike.Answers test) :
    Ends (findAdjacent s alike ctx out) heap fun result later =>
      later = heap ∧ First (Adjacent test elems) out result.1 result.2.1 := by
  simp only [findAdjacent, ends_bind, ends_assertSpan (Over.asserts holds)]
  apply @ends_neighbours _ _ _ _ _ _ test _ _ _ (fun i now => (true, i, now)) holds
  · intro i now inside
    simp only [Nat.add_sub_cancel, ends_bind, ends_get holds inside, ends_get holds (Nat.lt_of_succ_lt inside),
      answers elems[i] elems[i + 1] now]
    cases test elems[i] elems[i + 1] with
    | true => exact (ends_pure _ _ _).mpr ⟨rfl, rfl, _, rfl⟩
    | false => exact (ends_pure _ _ _).mpr ⟨rfl, Bool.false_ne_true⟩
  · intro i now here before
    exact (ends_pure _ _ _).mpr ⟨rfl, Or.inl ⟨rfl, here, before⟩⟩
  · intro now none_
    exact (ends_pure _ _ _).mpr ⟨rfl, Or.inr ⟨rfl, rfl, none_⟩⟩

end Neighbours

/-- The first and the last of the elems that pass, their number, and whether any, all or none
pass; the last of the elems equal to a key; and the first that is equal to the next one.  What
is not there leaves the place for its index as it was, and no query changes the memory.  As
many as are counted are gone when they are removed, and then none is left. -/
theorem Holds.queries {pred : Pred α C} {test : α -> Bool} {eq : Equate α β C} {same : α -> β -> Bool}
    {alike : Equate α α C} {equal : α -> α -> Bool} (holds : Holds heap.blocks s elems)
    (passes : pred.Answers test) (answers : eq.Answers same) (equals : alike.Answers equal)
    (key : β) (out : Nat) (ctx : C) :
    Ends (findIf s pred ctx out) heap (fun result later => later = heap ∧
      First (PassesAt test elems) out result.1 result.2.1) ∧
    Ends (findLastIf s pred ctx out) heap (fun result later => later = heap ∧
      Last (PassesAt test elems) out result.1 result.2.1) ∧
    Ends (countIf s pred ctx) heap (fun result later => later = heap ∧ result.1 = elems.countP test) ∧
    Ends (anyOf s pred ctx) heap (fun result later => later = heap ∧
      (result.1 = true <-> exists elem, elem ∈ elems ∧ test elem = true)) ∧
    Ends (allOf s pred ctx) heap (fun result later => later = heap ∧
      (result.1 = true <-> forall elem, elem ∈ elems -> test elem = true)) ∧
    Ends (noneOf s pred ctx) heap (fun result later => later = heap ∧
      (result.1 = true <-> forall elem, elem ∈ elems -> ¬ test elem = true)) ∧
    Ends (findLast s key eq ctx out) heap (fun result later => later = heap ∧
      Last (Matches same elems key) out result.1 result.2.1) ∧
    Ends (findAdjacent s alike ctx out) heap (fun result later => later = heap ∧
      First (Adjacent equal elems) out result.1 result.2.1) ∧
    Ends (countIf s pred ctx) heap fun count after => Ends (removeIf s pred count.2) after fun kept later =>
      kept.1 + count.1 = elems.length ∧
        Ends (noneOf (s.part 0 kept.1) pred kept.2) later fun none_ _ => none_.1 = true := by
  refine ⟨ends_findIf holds passes, ends_findLastIf holds passes, ends_countIf holds passes, ends_anyOf holds passes,
    ends_allOf holds passes, ends_noneOf holds passes, ends_findLast holds answers, ends_findAdjacent holds equals, ?_⟩
  refine (ends_countIf holds passes).mono ?_
  rintro ⟨count, now⟩ _ ⟨rfl, counted⟩
  apply ends_removeIf holds
  intro junk later length placed
  have others : (sift (negated pred) now elems).1 = elems.filter fun elem => !test elem :=
    sift_eq_filter fun elem ctx => congrArg Bool.not (passes elem ctx)
  have all := length_sift pred now elems
  rw [sift_eq_filter passes, ← List.countP_eq_length_filter] at all
  generalize (sift (negated pred) now elems).1 = rest at length placed others all ⊢
  have row : Holds later.blocks s (rest ++ junk) := placed ▸ holds.placed length
  have kept := row.taken (show rest.length ≤ (rest ++ junk).length from List.length_append ▸ Nat.le_add_right _ _)
  rw [List.take_left] at kept
  refine ⟨?_, (ends_noneOf kept passes).mono fun none_ _ told => told.2.mpr fun elem member => ?_⟩
  · dsimp only at counted ⊢
    omega
  · rw [others] at member
    exact Bool.eq_false_iff.mp ((Bool.not_eq_true' _).mp (List.mem_filter.mp member).2)

/-- Whether a number is even. -/
def isEven : Pred Nat Unit := fun elem ctx => (decide (elem % 2 = 0), ctx)

theorem queries_row : Ends (countIf (rowSpan 0 5) isEven ()) (rowsMem [[7, 8, 7, 8, 5]])
    fun result later => later = rowsMem [[7, 8, 7, 8, 5]] ∧ result.1 = 2 := by
  have row : Holds (rowsMem [[7, 8, 7, 8, 5]]).blocks (rowSpan 0 5) [7, 8, 7, 8, 5] :=
    rowsMem_holds rfl (show [7, 8, 7, 8, 5].length < sizeRange by decide)
  have even : isEven.Answers fun elem => decide (elem % 2 = 0) := fun _ _ => rfl
  have alike : Equate.Answers sameNumber fun lhs rhs => decide (lhs = rhs) := fun _ _ _ => rfl
  exact (row.queries even alike alike 7 9 ()).2.2.1

/-! ## The best elem -/

section Extremes

variable {beat : α -> α -> Prop} {cmp : Cmp α C} {order : α -> α -> Int}

/-- The place of an elem that no other beats, and that beats all elems in front of it. -/
def Best (beat : α -> α -> Prop) (elems : List α) (idx : Nat) : Prop :=
  exists elem, elems[idx]? = some elem ∧ (forall other, other ∈ elems -> ¬ beat other elem) ∧
    forall other, other ∈ elems.take idx -> beat elem other

theorem Best.unique {place : Nat} (best : Best beat elems idx) (also : Best beat elems place) : idx = place := by
  rcases best with ⟨elem, at_, unbeaten, front⟩
  rcases also with ⟨other, there, unbeatenToo, frontToo⟩
  rcases Nat.lt_trichotomy idx place with less | same | more
  · refine absurd (frontToo elem ?_) (unbeaten other (List.mem_of_getElem? there))
    exact List.mem_of_getElem? ((List.getElem?_take_of_lt less).trans at_)
  · exact same
  · refine absurd (front other ?_) (unbeatenToo elem (List.mem_of_getElem? at_))
    exact List.mem_of_getElem? ((List.getElem?_take_of_lt more).trans there)

/-- A strict order in which what beats an elem beats all that do not beat it. -/
structure Outranks (beat : α -> α -> Prop) : Prop where
  asymm : forall {a b}, beat a b -> ¬ beat b a
  beyond : forall {a b c}, beat a b -> ¬ beat c b -> beat a c

/-- The best so far, with one elem more. -/
theorem Best.next {front : List α} {best : α} (cur : α) (ranks : Outranks beat) (so_far : Best beat front idx)
    (at_ : front[idx]? = some best) :
    (beat cur best -> Best beat (front ++ [cur]) front.length) ∧
      (¬ beat cur best -> Best beat (front ++ [cur]) idx) := by
  rcases so_far with ⟨elem, there, unbeaten, before⟩
  have same : elem = best := Option.some.inj (there.symm.trans at_)
  subst same
  have inside : idx < front.length := (List.getElem?_eq_some_iff.mp at_).1
  constructor
  · intro better
    have all : forall other, other ∈ front -> beat cur other :=
      fun other member => ranks.beyond better (unbeaten other member)
    refine ⟨cur, List.getElem?_concat_length, fun other member back => ?_, fun other member => ?_⟩
    · rcases List.mem_append.mp member with old | new
      · exact ranks.asymm (all other old) back
      · rw [List.mem_singleton.mp new] at back
        exact ranks.asymm back back
    · rw [List.take_left] at member
      exact all other member
  · intro stays
    refine ⟨elem, (List.getElem?_append_left inside).trans at_, fun other member => ?_, fun other member => ?_⟩
    · rcases List.mem_append.mp member with old | new
      · exact unbeaten other old
      · rw [List.mem_singleton.mp new]
        exact stays
    · rw [List.take_append_of_le_length (Nat.le_of_lt inside)] at member
      exact before other member

theorem best_singleton (ranks : Outranks beat) (elem : α) : Best beat [elem] 0 := by
  refine ⟨elem, rfl, fun other member back => ?_, fun other impossible => absurd impossible List.not_mem_nil⟩
  rw [List.mem_singleton.mp member] at back
  exact ranks.asymm back back

/-- The elem is better, as the min or as the max. -/
def Beats (order : α -> α -> Int) (max : Bool) (cur best : α) : Prop :=
  if max = true then order best cur < 0 else order cur best < 0

theorem beats_iff (orders : cmp.Orders order) (cur best : α) (max : Bool) (ctx : C) :
    (beats cmp cur best max ctx).1 = true <-> Beats order max cur best := by
  cases max with
  | true => simp only [beats, Beats, if_true, decide_eq_true_eq, orders.answers]
  | false => simp only [beats, Beats, Bool.false_eq_true, if_false, decide_eq_true_eq, orders.answers]

theorem outranks_of_orders (orders : cmp.Orders order) (max : Bool) : Outranks (Beats order max) := by
  have signs : SignOrder order := ⟨orders.antisymm, orders.trans⟩
  have swap : forall {a b}, ¬ order a b < 0 -> order b a ≤ 0 := by
    intro a b not_less
    have sign := orders.antisymm a b
    omega
  constructor
  · intro a b better back
    cases max with
    | true => exact absurd ((orders.antisymm b a).mp better) (Int.lt_asymm back)
    | false => exact absurd ((orders.antisymm a b).mp better) (Int.lt_asymm back)
  · intro a b c better unbeaten
    cases max with
    | true => exact signs.lt_of_le_of_lt (swap unbeaten) better
    | false => exact signs.lt_of_lt_of_le better (swap unbeaten)

/-- What a walk knows of the best so far: where it is, and that it is the best if the
comparator orders the elems. -/
structure BestSoFar (cmp : Cmp α C) (max : Bool) (elems : List α) (i idx : Nat) (best : α) : Prop where
  low : idx < i
  at_ : elems[idx]? = some best
  best : forall order, cmp.Orders order -> Best (Beats order max) (elems.take i) idx

theorem BestSoFar.first {max : Bool} {first : α} {rest : List α} : BestSoFar cmp max (first :: rest) 1 0 first where
  low := Nat.one_pos
  at_ := rfl
  best _ orders := best_singleton (outranks_of_orders orders max) first

/-- One round of a walk. -/
theorem BestSoFar.round {max : Bool} {best : α} {i : Nat} (leads : BestSoFar cmp max elems i idx best)
    (inside : i < elems.length) (now : C) :
    BestSoFar cmp max elems (i + 1) (if (beats cmp elems[i] best max now).1 = true then i else idx)
      (if (beats cmp elems[i] best max now).1 = true then elems[i] else best) where
  low := by
    have low := leads.low
    split <;> omega
  at_ := by
    split
    · exact List.getElem?_eq_getElem inside
    · exact leads.at_
  best order orders := by
    have there : (elems.take i)[idx]? = some best := (List.getElem?_take_of_lt leads.low).trans leads.at_
    have next := (leads.best order orders).next elems[i] (outranks_of_orders orders max) there
    rw [List.length_take, Nat.min_eq_left (Nat.le_of_lt inside), ← List.take_succ_eq_append_getElem inside] at next
    have answer := beats_iff orders elems[i] best max now
    by_cases better : (beats cmp elems[i] best max now).1 = true
    · rw [if_pos better]
      exact next.1 (answer.mp better)
    · rw [if_neg better]
      exact next.2 fun beaten => better (answer.mpr beaten)

/-- The place of an elem, and of the best one if the comparator orders the elems. -/
def Extreme (cmp : Cmp α C) (max : Bool) (elems : List α) (idx : Nat) : Prop :=
  idx < elems.length ∧ forall order, cmp.Orders order -> Best (Beats order max) elems idx

theorem BestSoFar.extreme {max : Bool} {best : α} (leads : BestSoFar cmp max elems elems.length idx best) :
    Extreme cmp max elems idx := by
  refine ⟨leads.low, fun order orders => ?_⟩
  have whole := leads.best order orders
  rwa [List.take_length] at whole

theorem ends_extreme (max : Bool) (holds : Holds heap.blocks s elems) (some_ : 0 < elems.length) :
    Ends (extreme s cmp max ctx) heap fun result later => later = heap ∧ Extreme cmp max elems result.1 := by
  have len := holds.length
  simp only [extreme, ends_bind, ends_get holds some_]
  apply ends_countUp (fun i (vars : Nat × α × C) later => later = heap ∧ BestSoFar cmp max elems i vars.1 vars.2.1)
    (show 1 + (s.len - 1) = elems.length by omega)
  · rintro i ⟨idx, best, now⟩ later _ inside ⟨rfl, leads⟩
    dsimp only at leads
    have next := leads.round inside now
    simp only [ends_bind, ends_get holds inside, ends_pure]
    refine ⟨trivial, ?_⟩
    generalize (beats cmp elems[i] best max now).1 = better at next ⊢
    cases better with
    | true => exact next
    | false => exact next
  · rintro ⟨idx, best, now⟩ later ⟨rfl, leads⟩
    exact (ends_pure _ _ _).mpr ⟨rfl, leads.extreme⟩
  · rcases List.exists_cons_of_length_pos some_ with ⟨first, rest, rfl⟩
    exact ⟨rfl, BestSoFar.first⟩

theorem ends_minElem (holds : Holds heap.blocks s elems) (some_ : 0 < elems.length) :
    Ends (minElem s cmp ctx) heap fun result later => later = heap ∧ Extreme cmp false elems result.1 := by
  simp only [minElem, ends_bind, ends_assertSpan (Over.asserts holds), ends_require, ← holds.length, gt_iff_lt,
    some_, true_and]
  exact ends_extreme false holds some_

theorem ends_maxElem (holds : Holds heap.blocks s elems) (some_ : 0 < elems.length) :
    Ends (maxElem s cmp ctx) heap fun result later => later = heap ∧ Extreme cmp true elems result.1 := by
  simp only [maxElem, ends_bind, ends_assertSpan (Over.asserts holds), ends_require, ← holds.length, gt_iff_lt,
    some_, true_and]
  exact ends_extreme true holds some_

theorem ends_minmaxElem (holds : Holds heap.blocks s elems) (some_ : 0 < elems.length) :
    Ends (minmaxElem s cmp ctx) heap fun result later => later = heap ∧
      Extreme cmp false elems result.1.min ∧ Extreme cmp true elems result.1.max := by
  have len := holds.length
  have positive : s.len > 0 := len ▸ some_
  simp only [minmaxElem, ends_bind, ends_assertSpan (Over.asserts holds), ends_require, positive, true_and,
    ends_get holds some_]
  apply ends_countUp (fun i (vars : MinMax × α × α × C) later => later = heap ∧
      BestSoFar cmp false elems i vars.1.min vars.2.1 ∧ BestSoFar cmp true elems i vars.1.max vars.2.2.1)
    (show 1 + (s.len - 1) = elems.length by omega)
  · rintro i ⟨⟨minIdx, maxIdx⟩, min, max, now⟩ later _ inside ⟨rfl, least, most⟩
    dsimp only at least most
    have nextLeast := least.round inside now
    have nextMost := most.round inside (beats cmp elems[i] min false now).2
    simp only [ends_bind, ends_get holds inside, ends_pure]
    refine ⟨trivial, ?_⟩
    generalize (beats cmp elems[i] max true (beats cmp elems[i] min false now).2).1 = more at nextMost ⊢
    generalize (beats cmp elems[i] min false now).1 = less at nextLeast ⊢
    cases less with
    | true => cases more <;> exact ⟨nextLeast, nextMost⟩
    | false => cases more <;> exact ⟨nextLeast, nextMost⟩
  · rintro ⟨out, min, max, now⟩ later ⟨rfl, least, most⟩
    exact (ends_pure _ _ _).mpr ⟨rfl, least.extreme, most.extreme⟩
  · rcases List.exists_cons_of_length_pos some_ with ⟨first, rest, rfl⟩
    exact ⟨rfl, BestSoFar.first, BestSoFar.first⟩

end Extremes

/-! ## How far a span is sorted -/

section Sorted

variable {cmp : Cmp α C} {order : α -> α -> Int}

/-- The second elem goes before the first one. -/
def inverted (order : α -> α -> Int) (prev cur : α) : Bool := decide (order cur prev < 0)

/-- A row in which no elem goes before the one in front of it is sorted. -/
theorem pairwise_take_iff (orders : cmp.Orders order) (k : Nat) :
    (elems.take k).Pairwise (Cmp.le order) <-> forall i, i + 1 < k -> ¬ Adjacent (inverted order) elems i := by
  have chain : Trans (Cmp.le order) (Cmp.le order) (Cmp.le order) := ⟨fun first second => orders.trans first second⟩
  have stands : forall {i} (inside : i + 1 < elems.length),
      ¬ Adjacent (inverted order) elems i <-> Cmp.le order elems[i] elems[i + 1] := by
    intro i inside
    have signs := orders.antisymm elems[i + 1] elems[i]
    rw [adjacent_iff inside, inverted, decide_eq_true_eq]
    change _ <-> order elems[i] elems[i + 1] ≤ 0
    omega
  rw [← List.isChain_iff_pairwise, List.isChain_iff_getElem]
  simp only [List.length_take, List.getElem_take]
  constructor
  · intro all i below here
    have inside := here.inside
    exact (stands inside).mpr (all i (by omega)) here
  · intro all i below
    have inside : i + 1 < elems.length := by omega
    exact (stands inside).mp (all i (by omega))

/-- The elems before the place are sorted, and no more are. -/
def SortedUntil (order : α -> α -> Int) (elems : List α) (idx : Nat) : Prop :=
  idx ≤ elems.length ∧ forall k, k ≤ elems.length -> ((elems.take k).Pairwise (Cmp.le order) <-> k ≤ idx)

theorem SortedUntil.iff_length (until_ : SortedUntil order elems idx) :
    idx = elems.length <-> elems.Pairwise (Cmp.le order) := by
  have whole := until_.2 elems.length (Nat.le_refl _)
  rw [List.take_length] at whole
  have short := until_.1
  rw [whole]
  omega

theorem ends_isSortedUntil (holds : Holds heap.blocks s elems) (orders : cmp.Orders order) :
    Ends (isSortedUntil s cmp ctx) heap fun result later =>
      later = heap ∧ SortedUntil order elems result.1 := by
  have answers : forall prev cur now, (rightGoesFirst cmp prev cur now).1 = inverted order prev cur := by
    intro prev cur now
    exact congrArg (fun sign => decide (sign < 0)) (orders.answers cur prev now)
  simp only [isSortedUntil, ends_bind, ends_assertSpan (Over.asserts holds)]
  apply @ends_neighbours _ _ _ _ _ _ (inverted order) _ _ _ (fun i now => (i + 1, now)) holds
  · intro i now inside
    simp only [Nat.add_sub_cancel, ends_bind, ends_get holds inside, ends_get holds (Nat.lt_of_succ_lt inside),
      answers elems[i] elems[i + 1] now]
    cases inverted order elems[i] elems[i + 1] with
    | true => exact (ends_pure _ _ _).mpr ⟨rfl, rfl, _, rfl⟩
    | false => exact (ends_pure _ _ _).mpr ⟨rfl, Bool.false_ne_true⟩
  · intro i now here before
    refine (ends_pure _ _ _).mpr ⟨rfl, Nat.le_of_lt here.inside, fun k _ => ?_⟩
    rw [pairwise_take_iff orders]
    change _ <-> k ≤ i + 1
    constructor
    · intro all
      by_contra beyond
      exact all i (by omega) here
    · exact fun low k below => before k (by omega)
  · intro now none_
    refine (ends_pure _ _ _).mpr ⟨rfl, Nat.le_of_eq holds.length.symm, fun k short => ?_⟩
    rw [pairwise_take_iff orders]
    exact iff_of_true (fun i _ => none_ i) (holds.length ▸ short)

theorem ends_isSorted (holds : Holds heap.blocks s elems) (orders : cmp.Orders order) :
    Ends (isSorted s cmp ctx) heap fun result later =>
      later = heap ∧ (result.1 = true <-> elems.Pairwise (Cmp.le order)) := by
  simp only [isSorted, ends_bind, ends_assertSpan (Over.asserts holds)]
  refine (ends_isSortedUntil holds orders).mono ?_
  rintro result _ ⟨rfl, until_⟩
  refine (ends_pure _ _ _).mpr ⟨rfl, ?_⟩
  rw [← until_.iff_length, decide_eq_true_eq, holds.length]

/-- The first elem of a sorted row is the least. -/
theorem best_of_sorted (orders : cmp.Orders order) (sorted : elems.Pairwise (Cmp.le order)) (some_ : 0 < elems.length) :
    Best (Beats order false) elems 0 := by
  rcases List.exists_cons_of_length_pos some_ with ⟨first, rest, rfl⟩
  refine ⟨first, rfl, fun other member back => ?_, fun other impossible => absurd impossible List.not_mem_nil⟩
  change order other first < 0 at back
  have signs := orders.antisymm other first
  rcases List.mem_cons.mp member with same | behind
  · subst same
    omega
  · have le : order first other ≤ 0 := List.rel_of_pairwise_cons sorted behind
    omega

/-- The least elem of a row, the greatest, and how far it is sorted. A comparator may answer
anything: the indices are of elems. One that orders the elems gets the first of the least and the
first of the greatest, in one walk as in two; the longest sorted front, also of no elems; and whether
that is all. After a sort the row is sorted and its least elem stands in front. -/
theorem Holds.extremes (holds : Holds heap.blocks s elems) (cmp : Cmp α C) (ctx : C) :
    (0 < elems.length ->
      Ends (minElem s cmp ctx) heap (fun result later => later = heap ∧ result.1 < elems.length) ∧
      Ends (maxElem s cmp ctx) heap (fun result later => later = heap ∧ result.1 < elems.length) ∧
      Ends (minmaxElem s cmp ctx) heap (fun result later => later = heap ∧ result.1.min < elems.length ∧
        result.1.max < elems.length)) ∧
      forall order, cmp.Orders order ->
        (0 < elems.length -> Ends (minElem s cmp ctx) heap (fun min _ => Best (Beats order false) elems min.1 ∧
          Ends (maxElem s cmp min.2) heap (fun max _ => Best (Beats order true) elems max.1 ∧
            Ends (minmaxElem s cmp max.2) heap fun both _ => both.1 = ⟨min.1, max.1⟩))) ∧
        Ends (isSortedUntil s cmp ctx) heap (fun result later => later = heap ∧
          SortedUntil order elems result.1) ∧
        Ends (isSorted s cmp ctx) heap (fun result later => later = heap ∧
          (result.1 = true <-> elems.Pairwise (Cmp.le order))) ∧
        Ends (sort s cmp ctx) heap fun ctx later => Ends (isSorted s cmp ctx) later fun sorted _ =>
          sorted.1 = true ∧ (0 < elems.length -> Ends (minElem s cmp sorted.2) later fun min _ => min.1 = 0) := by
  have least : forall some_ : 0 < elems.length, forall now, Ends (minElem s cmp now) heap _ :=
    fun some_ now => ends_minElem holds some_
  have most : forall some_ : 0 < elems.length, forall now, Ends (maxElem s cmp now) heap _ :=
    fun some_ now => ends_maxElem holds some_
  have both : forall some_ : 0 < elems.length, forall now, Ends (minmaxElem s cmp now) heap _ :=
    fun some_ now => ends_minmaxElem holds some_
  refine ⟨fun some_ => ⟨?_, ?_, ?_⟩, fun order orders => ⟨fun some_ => ?_, ?_, ?_, ?_⟩⟩
  · exact (least some_ ctx).mono fun _ _ tells => ⟨tells.1, tells.2.1⟩
  · exact (most some_ ctx).mono fun _ _ tells => ⟨tells.1, tells.2.1⟩
  · exact (both some_ ctx).mono fun _ _ tells => ⟨tells.1, tells.2.1.1, tells.2.2.1⟩
  · refine (least some_ ctx).mono fun min _ tellsMin => ⟨tellsMin.2.2 order orders, ?_⟩
    refine (most some_ min.2).mono fun max _ tellsMax => ⟨tellsMax.2.2 order orders, ?_⟩
    refine (both some_ max.2).mono fun out _ tellsBoth => ?_
    have sameMin := (tellsBoth.2.1.2 order orders).unique (tellsMin.2.2 order orders)
    have sameMax := (tellsBoth.2.2.2 order orders).unique (tellsMax.2.2 order orders)
    rw [← sameMin, ← sameMax]
  · exact ends_isSortedUntil holds orders
  · exact ends_isSorted holds orders
  · refine ends_sort holds fun now after later placed perm sorts => ?_
    have row : Holds later.blocks s now := placed ▸ holds.placed perm.length_eq
    have sorted := sorts order orders
    refine (ends_isSorted row orders).mono fun result _ tells => ⟨tells.2.mpr sorted, fun some_ => ?_⟩
    have someNow : 0 < now.length := perm.length_eq ▸ some_
    refine Ends.mono (ends_minElem row someNow) fun min _ tellsMin => ?_
    exact (tellsMin.2.2 order orders).unique (best_of_sorted orders sorted someNow)

theorem extremes_row : Ends (isSortedUntil (rowSpan 0 5) byValue ()) (rowsMem [[7, 8, 8, 6, 9]])
    (fun result later => later = rowsMem [[7, 8, 8, 6, 9]] ∧
      SortedUntil (fun (lhs rhs : Nat) => (lhs : Int) - rhs) [7, 8, 8, 6, 9] result.1) ∧
    Ends (minElem (rowSpan 0 5) byValue ()) (rowsMem [[7, 8, 8, 6, 9]]) fun result later =>
      later = rowsMem [[7, 8, 8, 6, 9]] ∧ result.1 < 5 := by
  have row : Holds (rowsMem [[7, 8, 8, 6, 9]]).blocks (rowSpan 0 5) [7, 8, 8, 6, 9] :=
    rowsMem_holds rfl (show [7, 8, 8, 6, 9].length < sizeRange by decide)
  exact ⟨((row.extremes byValue ()).2 _ byValue_orders).2.1, ((row.extremes byValue ()).1 (by decide)).1⟩

end Sorted

end Span
end TerseDsa
