import TerseDsa.Core.Spans
import TerseDsa.Foundation.Scanning

namespace TerseDsa

open Foundation Run

/-!
# The searches of `algo/search` by an equality

A key, a run of a key, or the keys of another span are looked for, from the
front or from the back.  What is found is the first place, or the last one, of
those where the keys occur.
-/

/-- `tda_Eq`, of an elem and a key of any type, with the state behind its `ctx`. -/
abbrev Equate (α β C : Type) := α -> β -> C -> Bool × C

/-- The callback answers as `same` does, whatever its state. -/
def Equate.Answers {α β C : Type} (eq : Equate α β C) (same : α -> β -> Bool) : Prop :=
  forall lhs rhs ctx, (eq lhs rhs ctx).1 = same lhs rhs

namespace Span

variable {α β C : Type} {heap : SpanMem α} {s sub_ : Span} {elems subs : List α} {ctx : C}
  {out idx : Nat}

/-! ## One key -/

/-- `tda_span_find`; `out` is what `out_idx` points at. -/
def find (s : Span) (key : β) (eq : Equate α β C) (ctx : C) (out : Nat) : Run (SpanMem α) (Bool × Nat × C) := do
  assertSpan s
  let round ← scanUp (fun i ctx => do
    let elem ← get s i
    let (same, ctx) := eq elem key ctx
    if same then
      return .leave (true, i, ctx)
    return .again ctx) s.len 0 ctx
  return round.close fun ctx => (false, out, ctx)

/-- `tda_span_contains`. -/
def contains (s : Span) (key : β) (eq : Equate α β C) (ctx : C) : Run (SpanMem α) (Bool × C) := do
  assertSpan s
  let (found, _, ctx) ← find s key eq ctx 0
  return (found, ctx)

/-- `tda_span_count`. -/
def count (s : Span) (key : β) (eq : Equate α β C) (ctx : C) : Run (SpanMem α) (Nat × C) := do
  assertSpan s
  countUp (fun i vars => do
    let elem ← get s i
    let (same, ctx) := eq elem key vars.2
    return (if same then vars.1 + 1 else vars.1, ctx)) s.len 0 (0, ctx)

/-! ## Several keys -/

/-- `matches_at`. -/
def matchesAt (s sub : Span) (idx : Nat) (eq : Equate α α C) (ctx : C) : Run (SpanMem α) (Bool × C) := do
  require (wrapAdd idx sub.len ≤ s.len)
  let round ← scanUp (fun j ctx => do
    let elem ← get s (wrapAdd idx j)
    let key ← get sub j
    let (same, ctx) := eq elem key ctx
    if !same then
      return .leave (false, ctx)
    return .again ctx) sub.len 0 ctx
  return round.close fun ctx => (true, ctx)

/-- `tda_span_find_sub`. -/
def findSub (s sub : Span) (eq : Equate α α C) (ctx : C) (out : Nat) : Run (SpanMem α) (Bool × Nat × C) := do
  assertSpan s
  assertSpan sub
  if sub.len = 0 then
    return (true, 0, ctx)
  if sub.len > s.len then
    return (false, out, ctx)
  loop (fun (vars : Nat × C) => do
    let (i, ctx) := vars
    if wrapAdd i sub.len ≤ s.len then
      let (found, ctx) ← matchesAt s sub i eq ctx
      if found then
        return .leave (true, i, ctx)
      return .again (i + 1, ctx)
    else
      return .leave (false, out, ctx)) (s.len + 1) (0, ctx)

/-- `tda_span_find_last_sub`. -/
def findLastSub (s sub : Span) (eq : Equate α α C) (ctx : C) (out : Nat) : Run (SpanMem α) (Bool × Nat × C) := do
  assertSpan s
  assertSpan sub
  if sub.len = 0 then
    return (true, s.len, ctx)
  if sub.len > s.len then
    return (false, out, ctx)
  -- counts down through 0, so the loop var is the start plus one
  let round ← scanDown (fun start ctx => do
    let (found, ctx) ← matchesAt s sub start eq ctx
    if found then
      return .leave (true, start, ctx)
    return .again ctx) (wrapAdd (wrapSub s.len sub.len) 1) ctx
  return round.close fun ctx => (false, out, ctx)

/-- `tda_span_find_run`. -/
def findRun (s : Span) (key : β) (count : Nat) (eq : Equate α β C) (ctx : C) (out : Nat) :
    Run (SpanMem α) (Bool × Nat × C) := do
  assertSpan s
  if count = 0 then
    return (true, 0, ctx)
  let round ← scanUp (fun i vars => do
    let elem ← get s i
    let (same, ctx) := eq elem key vars.2
    let run := if same then vars.1 + 1 else 0
    if run = count then
      return .leave (true, wrapSub (i + 1) count, ctx)
    return .again (run, ctx)) s.len 0 (0, ctx)
  return round.close fun vars => (false, out, vars.2)

/-- `tda_span_starts_with`. -/
def startsWith (s pre : Span) (eq : Equate α α C) (ctx : C) : Run (SpanMem α) (Bool × C) := do
  assertSpan s
  assertSpan pre
  if pre.len ≤ s.len then
    matchesAt s pre 0 eq ctx
  else
    return (false, ctx)

/-- `tda_span_ends_with`. -/
def endsWith (s suffix : Span) (eq : Equate α α C) (ctx : C) : Run (SpanMem α) (Bool × C) := do
  assertSpan s
  assertSpan suffix
  if suffix.len ≤ s.len then
    matchesAt s suffix (wrapSub s.len suffix.len) eq ctx
  else
    return (false, ctx)

/-! ## Parts of a span -/

theorem Holds.taken (holds : Holds heap.blocks s elems) (inside : idx ≤ elems.length) :
    Holds heap.blocks (s.part 0 idx) (elems.take idx) := by
  have split : Holds heap.blocks s ([] ++ elems.take idx ++ elems.drop idx) := by
    rwa [List.nil_append, List.take_append_drop]
  have front := split.part
  rwa [List.length_nil, List.length_take, Nat.min_eq_left inside] at front

theorem Holds.dropped (holds : Holds heap.blocks s elems) (inside : idx ≤ elems.length) :
    Holds heap.blocks (s.part idx (s.len - idx)) (elems.drop idx) := by
  have split : Holds heap.blocks s (elems.take idx ++ elems.drop idx ++ []) := by
    rwa [List.append_nil, List.take_append_drop]
  have back := split.part
  rwa [List.length_drop, List.length_take, Nat.min_eq_left inside, holds.length] at back

/-! ## Rules for one key -/

section OneKey

variable {key : β} {eq : Equate α β C} {same : α -> β -> Bool}

/-- A span in memory has fewer elems than there are addresses. -/
theorem Holds.length_lt (holds : Holds heap.blocks s elems) : elems.length < sizeRange := by
  rw [holds.length]
  exact Nat.lt_of_le_of_lt (Nat.le_mul_of_pos_left _ (Layout.size_pos holds.isType)) holds.fits

/-- The elem at `idx` is equal to the key. -/
def Matches (same : α -> β -> Bool) (elems : List α) (key : β) (idx : Nat) : Prop :=
  exists elem, elems[idx]? = some elem ∧ same elem key = true

theorem matches_iff (inside : idx < elems.length) : Matches same elems key idx <-> same elems[idx] key = true := by
  simp only [Matches, List.getElem?_eq_getElem inside, Option.some_inj, exists_eq_left']

theorem Matches.inside (here : Matches same elems key idx) : idx < elems.length := by
  rcases here with ⟨elem, at_, _⟩
  exact (List.getElem?_eq_some_iff.mp at_).1

theorem ends_find (holds : Holds heap.blocks s elems) (answers : eq.Answers same)
    {post : Bool × Nat × C -> SpanMem α -> Prop}
    (done : forall found idx ctx, First (Matches same elems key) out found idx -> post (found, idx, ctx) heap) :
    Ends (find s key eq ctx out) heap post := by
  have len := holds.length
  simp only [find, ends_bind, ends_assertSpan (Over.asserts holds)]
  apply ends_scanUp_first (Matches same elems key) (fun i result => exists ctx, result = (true, i, ctx))
    (Nat.zero_add s.len)
  · intro i ctx _ below
    have inside : i < elems.length := by omega
    simp only [ends_bind, ends_get holds inside, matches_iff inside, answers elems[i] key ctx]
    cases same elems[i] key with
    | true => exact (ends_pure _ _ _).mpr ⟨rfl, rfl, _, rfl⟩
    | false => exact (ends_pure _ _ _).mpr ⟨rfl, Bool.false_ne_true⟩
  · rintro i result _ _ here before ⟨last, rfl⟩
    exact (ends_pure _ _ _).mpr (done true i last (Or.inl ⟨rfl, here, fun k => before k (Nat.zero_le k)⟩))
  · intro last none_
    refine (ends_pure _ _ _).mpr (done false out last (Or.inr ⟨rfl, rfl, fun k here => ?_⟩))
    exact none_ k (Nat.zero_le k) (len ▸ here.inside) here

theorem ends_contains (holds : Holds heap.blocks s elems) (answers : eq.Answers same)
    {post : Bool × C -> SpanMem α -> Prop}
    (done : forall found ctx, (found = true <-> exists elem, elem ∈ elems ∧ same elem key = true) ->
      post (found, ctx) heap) :
    Ends (contains s key eq ctx) heap post := by
  simp only [contains, ends_bind, ends_assertSpan (Over.asserts holds)]
  apply ends_find holds answers
  intro found idx last first
  refine (ends_pure _ _ _).mpr (done found last (first.found_iff.trans ?_))
  constructor
  · rintro ⟨k, elem, at_, equal⟩
    exact ⟨elem, List.mem_of_getElem? at_, equal⟩
  · rintro ⟨elem, member, equal⟩
    rcases List.getElem?_of_mem member with ⟨k, at_⟩
    exact ⟨k, elem, at_, equal⟩

theorem ends_count (holds : Holds heap.blocks s elems) (answers : eq.Answers same)
    {post : Nat × C -> SpanMem α -> Prop}
    (done : forall ctx, post (elems.countP (same · key), ctx) heap) :
    Ends (count s key eq ctx) heap post := by
  have len := holds.length
  simp only [count, ends_bind, ends_assertSpan (Over.asserts holds)]
  apply ends_countUp (fun i vars later => later = heap ∧ vars.1 = (elems.take i).countP (same · key))
    (show 0 + s.len = s.len by omega)
  · rintro i vars later _ below ⟨rfl, so_far⟩
    have inside : i < elems.length := by omega
    simp only [ends_bind, ends_get holds inside, answers elems[i] key vars.2, ends_pure, true_and]
    rw [List.take_succ_eq_append_getElem inside, List.countP_append, List.countP_singleton, so_far]
    cases same elems[i] key with
    | true => rfl
    | false => rfl
  · rintro vars later ⟨rfl, all⟩
    rw [List.take_of_length_le (Nat.le_of_eq len)] at all
    have last := done vars.2
    rwa [← all] at last
  · exact ⟨rfl, rfl⟩

end OneKey

/-! ## Rules for several keys -/

/-- The keys stand in the row from `idx` on. -/
def Occurs (same : α -> β -> Bool) (elems : List α) (keys : List β) (idx : Nat) : Prop :=
  idx + keys.length ≤ elems.length ∧
    forall j elem key, elems[idx + j]? = some elem -> keys[j]? = some key -> same elem key = true

/-- No keys occur everywhere, behind the last elem too. -/
theorem occurs_nil {same : α -> β -> Bool} : Occurs same elems [] idx <-> idx ≤ elems.length := by
  constructor
  · exact fun here => here.1
  · exact fun inside => ⟨inside, fun j elem key _ impossible => by cases impossible⟩

instance {same : α -> β -> Bool} {keys : List β} : Decidable (Occurs same elems keys idx) :=
  decidable_of_iff (idx + keys.length ≤ elems.length ∧ forall j, (below : j < keys.length) ->
    forall elem, elem ∈ elems[idx + j]? -> same elem keys[j] = true) <| by
    constructor
    · rintro ⟨fits, all⟩
      refine ⟨fits, fun j elem key at_ atKey => ?_⟩
      rcases List.getElem?_eq_some_iff.mp atKey with ⟨below, rfl⟩
      exact all j below elem at_
    · rintro ⟨fits, all⟩
      exact ⟨fits, fun j below elem at_ => all j elem _ at_ (List.getElem?_eq_getElem below)⟩

/-- The span shows these elems, and there is an address behind its last byte, as there
is behind every object. -/
structure Sited (blocks : Blocks AlTag (List (Option α))) (span : Span) (elems : List α) : Prop where
  holds : Holds blocks span elems
  past : span.elem.size * span.len < sizeMax

theorem Sited.length_lt (sited : Sited heap.blocks s elems) : elems.length + 1 < sizeRange := by
  have few := Nat.le_mul_of_pos_left s.len (Layout.size_pos sited.holds.isType)
  have past := sited.past
  rw [sited.holds.length]
  unfold sizeMax at past
  omega

section SeveralKeys

variable {eq : Equate α α C} {same : α -> α -> Bool}

/-- The end of the elems at `idx` is computed without a carry. -/
theorem Holds.room_at (holds : Holds heap.blocks s elems) (holdsSub : Holds heap.blocks sub_ subs)
    (fits : idx + subs.length ≤ elems.length) : wrapAdd idx sub_.len ≤ s.len := by
  have len := holds.length
  have lenSub := holdsSub.length
  have short := holds.length_lt
  rw [wrapAdd_eq (by omega)]
  omega

theorem ends_matchesAt (holds : Holds heap.blocks s elems) (holdsSub : Holds heap.blocks sub_ subs)
    (answers : eq.Answers same) (fits : idx + subs.length ≤ elems.length) {post : Bool × C -> SpanMem α -> Prop}
    (done : forall found ctx, (found = true <-> Occurs same elems subs idx) -> post (found, ctx) heap) :
    Ends (matchesAt s sub_ idx eq ctx) heap post := by
  have len := holds.length
  have lenSub := holdsSub.length
  have short := holds.length_lt
  simp only [matchesAt, ends_bind, ends_require, holds.room_at holdsSub fits, true_and]
  apply ends_scanUp_first (fun j => exists elem key, elems[idx + j]? = some elem ∧ subs[j]? = some key ∧
    same elem key = false) (fun _ result => exists ctx, result = (false, ctx)) (Nat.zero_add sub_.len)
  · intro j ctx _ below
    have inside : idx + j < elems.length := by omega
    have insideSub : j < subs.length := by omega
    simp only [wrapAdd_eq (show idx + j < sizeRange by omega), ends_bind, ends_get holds inside,
      ends_get holdsSub insideSub, answers elems[idx + j] subs[j] ctx, List.getElem?_eq_getElem inside,
      List.getElem?_eq_getElem insideSub, Option.some_inj, exists_eq_left', exists_and_left]
    cases same elems[idx + j] subs[j] with
    | true => exact (ends_pure _ _ _).mpr ⟨rfl, Bool.true_eq_false_eq_False⟩
    | false => exact (ends_pure _ _ _).mpr ⟨rfl, rfl, _, rfl⟩
  · rintro j result _ _ ⟨elem, key, at_, atSub, differ⟩ _ ⟨last, rfl⟩
    refine (ends_pure _ _ _).mpr (done false last ⟨fun impossible => absurd impossible Bool.false_ne_true, ?_⟩)
    rintro ⟨_, all⟩
    rw [all j elem key at_ atSub] at differ
    cases differ
  · intro last none_
    refine (ends_pure _ _ _).mpr (done true last ⟨fun _ => ⟨fits, ?_⟩, fun _ => rfl⟩)
    intro j elem key at_ atSub
    have below := (List.getElem?_eq_some_iff.mp atSub).1
    by_contra differ
    exact none_ j (Nat.zero_le j) (by omega) ⟨elem, key, at_, atSub, Bool.eq_false_iff.mpr differ⟩

theorem ends_startsWith (holds : Holds heap.blocks s elems) (holdsSub : Holds heap.blocks sub_ subs)
    (answers : eq.Answers same) {post : Bool × C -> SpanMem α -> Prop}
    (done : forall found ctx, (found = true <-> Occurs same elems subs 0) -> post (found, ctx) heap) :
    Ends (startsWith s sub_ eq ctx) heap post := by
  have len := holds.length
  have lenSub := holdsSub.length
  simp only [startsWith, ends_bind, ends_assertSpan (Over.asserts holds), ends_assertSpan (Over.asserts holdsSub)]
  by_cases fits : sub_.len ≤ s.len
  · rw [if_pos fits]
    exact ends_matchesAt holds holdsSub answers (by omega) done
  · rw [if_neg fits, ends_pure]
    exact done false ctx ⟨fun impossible => absurd impossible Bool.false_ne_true, fun here => absurd here.1 (by omega)⟩

theorem ends_endsWith (holds : Holds heap.blocks s elems) (holdsSub : Holds heap.blocks sub_ subs)
    (answers : eq.Answers same) {post : Bool × C -> SpanMem α -> Prop}
    (done : forall found ctx,
      (found = true <-> subs.length ≤ elems.length ∧ Occurs same elems subs (elems.length - subs.length)) ->
      post (found, ctx) heap) :
    Ends (endsWith s sub_ eq ctx) heap post := by
  have len := holds.length
  have lenSub := holdsSub.length
  have short := holds.length_lt
  simp only [endsWith, ends_bind, ends_assertSpan (Over.asserts holds), ends_assertSpan (Over.asserts holdsSub)]
  by_cases fits : sub_.len ≤ s.len
  · have start : wrapSub s.len sub_.len = elems.length - subs.length := by
      rw [wrapSub_eq (by omega) fits, len, lenSub]
    rw [if_pos fits, start]
    apply ends_matchesAt holds holdsSub answers (by omega)
    intro found last told
    exact done found last (told.trans (and_iff_right (by omega)).symm)
  · rw [if_neg fits, ends_pure]
    exact done false ctx ⟨fun impossible => absurd impossible Bool.false_ne_true, fun here => absurd here.1 (by omega)⟩

theorem ends_findSub (sited : Sited heap.blocks s elems) (holdsSub : Holds heap.blocks sub_ subs)
    (answers : eq.Answers same) {post : Bool × Nat × C -> SpanMem α -> Prop}
    (done : forall found idx ctx, First (Occurs same elems subs) out found idx -> post (found, idx, ctx) heap) :
    Ends (findSub s sub_ eq ctx out) heap post := by
  have holds := sited.holds
  have len := holds.length
  have lenSub := holdsSub.length
  have short := sited.length_lt
  simp only [findSub, ends_bind, ends_assertSpan (Over.asserts holds), ends_assertSpan (Over.asserts holdsSub)]
  by_cases nothing : sub_.len = 0
  · have empty : subs = [] := List.eq_nil_of_length_eq_zero (lenSub.trans nothing)
    rw [if_pos nothing, ends_pure]
    subst empty
    exact done true 0 ctx (Or.inl ⟨rfl, occurs_nil.mpr (Nat.zero_le _), fun k below => absurd below (Nat.not_lt_zero k)⟩)
  rw [if_neg nothing]
  by_cases long : sub_.len > s.len
  · rw [if_pos long, ends_pure]
    exact done false out ctx (Or.inr ⟨rfl, rfl, fun k here => absurd here.1 (by omega)⟩)
  rw [if_neg long]
  refine ends_loop (fun left (vars : Nat × C) later => later = heap ∧ left + vars.1 = s.len ∧
    vars.1 + subs.length ≤ elems.length + 1 ∧ forall k, k < vars.1 -> ¬ Occurs same elems subs k) ?_
    (n := s.len) ⟨rfl, Nat.add_zero _, by omega, fun k below => absurd below (Nat.not_lt_zero k)⟩ (Nat.lt_succ_self _)
  rintro left ⟨i, now⟩ later ⟨rfl, count, room, before⟩
  dsimp only at count room before ⊢
  rw [wrapAdd_eq (show i + sub_.len < sizeRange by omega), ends_ite]
  constructor
  · intro fits
    rw [ends_bind]
    apply ends_matchesAt holds holdsSub answers (by omega)
    intro found last told
    cases found with
    | true =>
        exact (ends_pure _ _ _).mpr (done true i last (Or.inl ⟨rfl, told.mp rfl, before⟩))
    | false =>
        refine (ends_pure _ _ _).mpr ⟨left - 1, by omega, rfl, by dsimp only; omega, by dsimp only; omega, ?_⟩
        intro k below
        rcases Nat.lt_succ_iff_lt_or_eq.mp below with earlier | rfl
        · exact before k earlier
        · exact fun here => Bool.false_ne_true (told.mpr here)
  · intro over_
    refine (ends_pure _ _ _).mpr (done false out now (Or.inr ⟨rfl, rfl, fun k here => ?_⟩))
    exact before k (by have fits := here.1; omega) here

theorem ends_findLastSub (holds : Holds heap.blocks s elems) (holdsSub : Holds heap.blocks sub_ subs)
    (answers : eq.Answers same) {post : Bool × Nat × C -> SpanMem α -> Prop}
    (done : forall found idx ctx, Last (Occurs same elems subs) out found idx -> post (found, idx, ctx) heap) :
    Ends (findLastSub s sub_ eq ctx out) heap post := by
  have len := holds.length
  have lenSub := holdsSub.length
  have short := holds.length_lt
  simp only [findLastSub, ends_bind, ends_assertSpan (Over.asserts holds),
    ends_assertSpan (Over.asserts holdsSub)]
  by_cases nothing : sub_.len = 0
  · have empty : subs = [] := List.eq_nil_of_length_eq_zero (lenSub.trans nothing)
    rw [if_pos nothing, ends_pure]
    subst empty
    refine done true s.len ctx (Or.inl ⟨rfl, occurs_nil.mpr (Nat.le_of_eq len.symm), fun k above here => ?_⟩)
    exact absurd (occurs_nil.mp here) (by omega)
  rw [if_neg nothing]
  by_cases long : sub_.len > s.len
  · rw [if_pos long, ends_pure]
    exact done false out ctx (Or.inr ⟨rfl, rfl, fun k here => absurd here.1 (by omega)⟩)
  rw [if_neg long, ends_bind]
  have starts : wrapAdd (wrapSub s.len sub_.len) 1 = s.len - sub_.len + 1 := by
    rw [wrapSub_eq (by omega) (by omega), wrapAdd_eq (by omega)]
  rw [starts]
  apply ends_scanDown_last (Occurs same elems subs) fun i result => exists ctx, result = (true, i, ctx)
  · intro i now below
    simp only [ends_bind]
    apply ends_matchesAt holds holdsSub answers (by omega)
    intro found last told
    cases found with
    | true => exact (ends_pure _ _ _).mpr ⟨rfl, told.mp rfl, last, rfl⟩
    | false => exact (ends_pure _ _ _).mpr ⟨rfl, fun here => Bool.false_ne_true (told.mpr here)⟩
  · rintro i result below here after ⟨last, rfl⟩
    refine (ends_pure _ _ _).mpr (done true i last (Or.inl ⟨rfl, here, fun k above there => ?_⟩))
    exact after k above (by have fits := there.1; omega) there
  · intro last none_
    refine (ends_pure _ _ _).mpr (done false out last (Or.inr ⟨rfl, rfl, fun k here => ?_⟩))
    exact none_ k (by have fits := here.1; omega) here

end SeveralKeys

section RunOfKey

variable {key : β} {eq : Equate α β C} {same : α -> β -> Bool} {count : Nat}

/-- Copies of the key stand where there is a window of elems equal to it. -/
theorem occurs_replicate (some_ : 0 < count) :
    Occurs same elems (List.replicate count key) idx <-> Window (Matches same elems key) count idx := by
  constructor
  · rintro ⟨fits, all⟩ j below
    rw [List.length_replicate] at fits
    have inside : idx + j < elems.length := by omega
    have at_ := List.getElem?_eq_getElem inside
    exact ⟨_, at_, all j _ key at_ (by rw [List.getElem?_replicate_of_lt below])⟩
  · intro window
    have last := (window (count - 1) (by omega)).inside
    refine ⟨by rw [List.length_replicate]; omega, fun j elem other at_ atKey => ?_⟩
    rcases List.getElem?_eq_some_iff.mp atKey with ⟨below, rfl⟩
    rw [List.length_replicate] at below
    rcases window j below with ⟨found, there, equal⟩
    rw [at_, Option.some_inj] at there
    rw [List.getElem_replicate, there]
    exact equal

theorem ends_findRun (holds : Holds heap.blocks s elems) (answers : eq.Answers same)
    {post : Bool × Nat × C -> SpanMem α -> Prop}
    (done : forall found idx ctx, First (Occurs same elems (List.replicate count key)) out found idx ->
      post (found, idx, ctx) heap) :
    Ends (findRun s key count eq ctx out) heap post := by
  have len := holds.length
  have short := holds.length_lt
  simp only [findRun, ends_bind, ends_assertSpan (Over.asserts holds)]
  by_cases nothing : count = 0
  · subst nothing
    rw [if_pos rfl, ends_pure]
    exact done true 0 ctx (Or.inl ⟨rfl, occurs_nil.mpr (Nat.zero_le _), fun k below => absurd below (Nat.not_lt_zero k)⟩)
  have some_ : 0 < count := Nat.pos_of_ne_zero nothing
  rw [if_neg nothing, ends_bind]
  apply ends_scanUp (fun i vars later => later = heap ∧ Running (Matches same elems key) count i vars.1)
    (Nat.zero_add s.len)
  · rintro i ⟨run, now⟩ later _ below ⟨rfl, running⟩
    have inside : i < elems.length := by omega
    have here : Matches same elems key i <-> same elems[i] key = true := matches_iff inside
    simp only [ends_bind, ends_get holds inside, answers elems[i] key now]
    cases equal : same elems[i] key with
    | true =>
        rw [equal] at here
        simp only [if_true]
        by_cases last : run + 1 = count
        · have first := running.complete (here.mpr rfl) last
          rw [if_pos last, ends_pure, Run.Round.meets_leave, Run.Round.close_leave, ends_pure,
            wrapSub_eq (by omega) (by have reached := running.inside; omega)]
          exact done true _ _ (Or.inl ⟨rfl, (occurs_replicate some_).mpr first.1, fun k before there =>
            first.2 k before ((occurs_replicate some_).mp there)⟩)
        · rw [if_neg last]
          have still := running.short
          exact (ends_pure _ _ _).mpr ⟨rfl, running.longer (here.mpr rfl) (by dsimp only at still; omega)⟩
    | false =>
        rw [equal] at here
        have miss : ¬ Matches same elems key i := fun hit => Bool.false_ne_true (here.mp hit)
        simp only [Bool.false_eq_true, if_false, Ne.symm nothing]
        exact (ends_pure _ _ _).mpr ⟨rfl, running.again miss⟩
  · rintro ⟨run, now⟩ later ⟨rfl, running⟩
    refine (ends_pure _ _ _).mpr (done false out now (Or.inr ⟨rfl, rfl, fun k here => ?_⟩))
    have fits := here.1
    rw [List.length_replicate] at fits
    exact running.none_ k (by omega) ((occurs_replicate some_).mp here)
  · exact ⟨rfl, Running.start some_⟩

end RunOfKey

/-! ## The results -/

/-- For all spans and every equality: the first and the last place where the elems of
`sub_` occur are found, or none and the place for it is as it was; whether they occur in
front and at the end is told; and the first run of copies of a key is found, as it is for
a span that shows the copies. -/
theorem Sited.searches {sub_ : Span} {subs : List α} {eq : Equate α α C} {same : α -> α -> Bool}
    {eqKey : Equate α β C} {sameKey : α -> β -> Bool} (sited : Sited heap.blocks s elems)
    (holdsSub : Holds heap.blocks sub_ subs) (answers : eq.Answers same) (answersKey : eqKey.Answers sameKey)
    (out : Nat) (ctx : C) :
    Ends (findSub s sub_ eq ctx out) heap (fun result later => later = heap ∧
        First (Occurs same elems subs) out result.1 result.2.1) ∧
      Ends (findLastSub s sub_ eq ctx out) heap (fun result later => later = heap ∧
        Last (Occurs same elems subs) out result.1 result.2.1) ∧
      (subs = [] -> Ends (findSub s sub_ eq ctx out) heap (fun result _ => result.1 = true ∧ result.2.1 = 0) ∧
        Ends (findLastSub s sub_ eq ctx out) heap (fun result _ => result.1 = true ∧ result.2.1 = s.len)) ∧
      Ends (startsWith s sub_ eq ctx) heap (fun result later => later = heap ∧
        (result.1 = true <-> Occurs same elems subs 0)) ∧
      Ends (endsWith s sub_ eq ctx) heap (fun result later => later = heap ∧
        (result.1 = true <-> subs.length ≤ elems.length ∧ Occurs same elems subs (elems.length - subs.length))) ∧
      (forall (key : β) (count : Nat), Ends (findRun s key count eqKey ctx out) heap fun result later =>
        later = heap ∧ First (Occurs sameKey elems (List.replicate count key)) out result.1 result.2.1) ∧
      (forall (copies : Span) (key : α) (count : Nat), Holds heap.blocks copies (List.replicate count key) ->
        exists found idx, Ends (findRun s key count eq ctx out) heap (fun result _ => result.1 = found ∧
            result.2.1 = idx) ∧
          Ends (findSub s copies eq ctx out) heap fun result _ => result.1 = found ∧ result.2.1 = idx) := by
  have holds := sited.holds
  refine ⟨ends_findSub sited holdsSub answers fun _ _ _ first => ⟨rfl, first⟩,
    ends_findLastSub holds holdsSub answers fun _ _ _ last => ⟨rfl, last⟩, ?_,
    ends_startsWith holds holdsSub answers fun _ _ told => ⟨rfl, told⟩,
    ends_endsWith holds holdsSub answers fun _ _ told => ⟨rfl, told⟩,
    fun key count => ends_findRun holds answersKey fun _ _ _ first => ⟨rfl, first⟩, ?_⟩
  · rintro rfl
    have front : First (Occurs same elems []) out true 0 :=
      Or.inl ⟨rfl, occurs_nil.mpr (Nat.zero_le _), fun k below => absurd below (Nat.not_lt_zero k)⟩
    refine ⟨ends_findSub sited holdsSub answers fun found idx _ first => ?_,
      ends_findLastSub holds holdsSub answers fun found idx _ last => ?_⟩
    · exact first.unique front
    · rcases last with ⟨rfl, here, after⟩ | ⟨_, _, none_⟩
      · have inside := occurs_nil.mp here
        have end_ := occurs_nil.not.mp (after (idx + 1) (Nat.lt_succ_self idx))
        have len := holds.length
        exact ⟨rfl, by dsimp only; omega⟩
      · exact absurd (occurs_nil.mpr (Nat.zero_le _)) (none_ 0)
  · intro copies key count shown
    have run : Ends (findRun s key count eq ctx out) heap fun result _ =>
        First (Occurs same elems (List.replicate count key)) out result.1 result.2.1 :=
      ends_findRun holds answers fun _ _ _ first => first
    rcases run with ⟨result, later, ran, first⟩
    refine ⟨result.1, result.2.1, ⟨result, later, ran, rfl, rfl⟩, ?_⟩
    exact ends_findSub sited shown answers fun _ _ _ also => also.unique first

/-- Numbers are equal to themselves. -/
def sameNumber : Equate Nat Nat Unit := fun lhs rhs ctx => (decide (lhs = rhs), ctx)

theorem searches_row :
    Ends (findRun (rowSpan 0 5) 8 2 sameNumber () 9) (rowsMem [[7, 8, 7, 8, 8], [8, 8]])
      fun result _ => result.1 = true ∧ result.2.1 = 3 := by
  have row : Sited (rowsMem [[7, 8, 7, 8, 8], [8, 8]]).blocks (rowSpan 0 5) [7, 8, 7, 8, 8] :=
    ⟨rowsMem_holds rfl (show [7, 8, 7, 8, 8].length < sizeRange by decide), by decide⟩
  have pair : Holds (rowsMem [[7, 8, 7, 8, 8], [8, 8]]).blocks (rowSpan 1 2) [8, 8] :=
    rowsMem_holds rfl (show [8, 8].length < sizeRange by decide)
  have answers : sameNumber.Answers fun lhs rhs => decide (lhs = rhs) := fun _ _ _ => rfl
  have first : First (Occurs (fun lhs rhs => decide (lhs = rhs)) [7, 8, 7, 8, 8] (List.replicate 2 8)) 9 true 3 :=
    Or.inl ⟨rfl, by decide, by decide⟩
  refine ((row.searches pair answers answers 9 ()).2.2.2.2.2.1 8 2).mono ?_
  rintro ⟨found, idx, _⟩ _ ⟨_, also⟩
  exact also.unique first

end Span
end TerseDsa
