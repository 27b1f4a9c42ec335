import TerseDsa.Algo.Permutations
import TerseDsa.Algo.Compare
import TerseDsa.Foundation.Draws

namespace TerseDsa

open Foundation Run

/-!
# Permutation stepping is lexicographic succession

A step goes to the least permutation above the present one, or, from the
greatest one, to the least.  Going down is going up with the comparator turned.
-/

namespace Cmp.Orders

variable {α C : Type} {cmp : Cmp α C} {order : α -> α -> Int}

theorem exists_rank (orders : cmp.Orders order) :
    exists (Rank : Type) (_ : LinearOrder Rank) (rank : α -> Rank), Ranks order rank := by
  rcases orders.preorder.exists_rank with ⟨Rank, linear, rank, ranks⟩
  refine ⟨Rank, linear, rank, fun x y => ⟨?_, ?_⟩⟩
  · have strict : rank x < rank y <-> ¬ Cmp.le order y x := by rw [ranks y x, not_le]
    rw [strict]
    have sign := orders.antisymm x y
    unfold Cmp.le
    omega
  · rw [le_antisymm_iff (a := rank x), ← ranks x y, ← ranks y x]
    have sign := orders.antisymm x y
    have back := orders.antisymm y x
    unfold Cmp.le
    omega

/-- The turned comparator orders the other way round. -/
theorem turned (orders : cmp.Orders order) :
    Cmp.Orders (fun x y => cmp y x : Cmp α C) fun x y => order y x :=
  ⟨fun lhs rhs ctx => orders.answers rhs lhs ctx, fun lhs rhs => orders.antisymm rhs lhs,
    fun first second => orders.trans second first⟩

end Cmp.Orders

namespace Span

variable {α C : Type} {heap : SpanMem α} {s a b : Span} {elems left right out front hi lo suffix other : List α}
  {x m : α} {cmp : Cmp α C} {order : α -> α -> Int} {ctx : C}

/-- The list never rises. -/
def Falls (order : α -> α -> Int) (elems : List α) : Prop := elems.Pairwise fun x y => order y x ≤ 0

/-- The output is a least rearrangement above the elems. -/
structure Succeeds (order : α -> α -> Int) (elems out : List α) : Prop where
  perm : out.Perm elems
  above : lexCompare order elems out < 0
  least : forall other : List α, other.Perm elems -> lexCompare order elems other < 0 -> lexCompare order out other ≤ 0

/-- The output is a greatest rearrangement below the elems. -/
structure Precedes (order : α -> α -> Int) (elems out : List α) : Prop where
  perm : out.Perm elems
  below : lexCompare order out elems < 0
  greatest : forall other : List α, other.Perm elems -> lexCompare order other elems < 0 -> lexCompare order other out ≤ 0

/-! ## Rearrangements in order -/

section Lists

theorem falls_map {Rank : Type} [LinearOrder Rank] {rank : α -> Rank} (orders : cmp.Orders order)
    (ranks : Ranks order rank) (falls : Falls order elems) : (elems.map rank).Pairwise (· ≥ ·) := by
  rw [List.pairwise_map]
  refine falls.imp fun {x y} below => ?_
  apply le_of_not_gt
  intro rises
  have up := (ranks x y).1.mpr rises
  have sign := orders.antisymm x y
  omega

/-- No rearrangement is above a list that never rises. -/
theorem Falls.greatest (falls : Falls order elems) (orders : cmp.Orders order) (perm : other.Perm elems) :
    ¬ lexCompare order elems other < 0 := by
  rcases orders.exists_rank with ⟨Rank, linear, rank, ranks⟩
  rw [lexCompare_lt_iff ranks perm.length_eq.symm]
  exact not_falling_lt (falls_map orders ranks falls) (perm.map rank)

/-- And turned around it is sorted. -/
theorem Falls.sorted (falls : Falls order elems) : elems.reverse.Pairwise (Cmp.le order) :=
  List.pairwise_reverse.mpr falls

theorem sorted_least (orders : cmp.Orders order) (sorted : elems.Pairwise (Cmp.le order)) (perm : other.Perm elems) :
    ¬ lexCompare order other elems < 0 := by
  have falls : Falls (fun x y => order y x) elems := sorted
  have greatest := falls.greatest orders.turned perm
  rwa [lexCompare_turned perm.length_eq.symm] at greatest

/-- The step from a list that rises somewhere. -/
theorem Falls.succeeds (falls : Falls order (hi ++ m :: lo)) (orders : cmp.Orders order) (up : order x m < 0)
    (low : forall y, y ∈ lo -> ¬ order x y < 0) :
    Succeeds order (front ++ x :: (hi ++ m :: lo)) (front ++ m :: (hi ++ x :: lo).reverse) := by
  rcases orders.exists_rank with ⟨Rank, linear, rank, ranks⟩
  have perm : (front ++ m :: (hi ++ x :: lo).reverse).Perm (front ++ x :: (hi ++ m :: lo)) := by
    apply List.Perm.append_left
    refine ((List.reverse_perm _).cons m).trans ((List.perm_middle.cons m).trans ?_)
    exact (List.Perm.swap x m _).trans (List.perm_middle.symm.cons x)
  have falling := falls_map orders ranks falls
  have rises := (ranks x m).1.mp up
  have below : forall y, y ∈ lo.map rank -> y ≤ rank x := by
    intro y inside
    rcases List.mem_map.mp inside with ⟨elem, inLo, rfl⟩
    exact le_of_not_gt fun above => low elem inLo ((ranks x elem).1.mpr above)
  rw [List.map_append, List.map_cons] at falling
  refine ⟨perm, ?_, fun other permOther above => ?_⟩
  · rw [lexCompare_lt_iff ranks perm.length_eq.symm]
    simp only [List.map_append, List.map_cons, List.map_reverse]
    exact lt_next rises _ _ _
  · rw [(signOrder orders).lexCompare_le_iff]
    rw [lexCompare_lt_iff ranks permOther.length_eq.symm] at above
    rw [lexCompare_lt_iff ranks (permOther.trans perm.symm).length_eq]
    have permRanks := permOther.map rank
    simp only [List.map_append, List.map_cons, List.map_reverse] at above permRanks ⊢
    exact not_lt_next falling rises below permRanks above

end Lists

/-! ## A step -/

theorem ends_goesBefore {i j : Nat} (orders : cmp.Orders order) (holds : Holds heap.blocks s elems)
    (first : i < elems.length) (second : j < elems.length) {post : Bool × C -> SpanMem α -> Prop}
    (done : forall ctx, post (decide (order elems[i] elems[j] < 0), ctx) heap) :
    Ends (goesBefore s cmp ctx true i j) heap post := by
  simp only [goesBefore, ends_bind, ends_get holds first, ends_get holds second, if_true, ends_pure,
    orders.answers]
  exact done _

/-- The pivot is found behind the last elem that is below the next one. -/
theorem ends_findPivot (orders : cmp.Orders order) (holds : Holds heap.blocks s elems) (some_ : elems ≠ [])
    {post : Nat × C -> SpanMem α -> Prop}
    (done : forall front suffix ctx, elems = front ++ suffix -> Falls order suffix ->
      (front = [] ∨ exists front' x h rest, front = front' ++ [x] ∧ suffix = h :: rest ∧ order x h < 0) ->
      post (front.length, ctx) heap) :
    Ends (findPivot s cmp ctx true) heap post := by
  have length := holds.length
  have positive := List.length_pos_of_ne_nil some_
  -- behind the pivot the span falls
  refine ends_loop (fun rounds (vars : Nat × C) mid => mid = heap ∧ exists front h rest, rounds = front.length ∧
    elems = front ++ h :: rest ∧ vars.1 = front.length ∧ Falls order (h :: rest)) ?_
    (n := elems.dropLast.length) ⟨rfl, elems.dropLast, elems.getLast some_, [], rfl,
      (List.dropLast_append_getLast some_).symm, ?_, List.pairwise_singleton _ _⟩ (by rw [List.length_dropLast]; omega)
  · rintro rounds ⟨pivot, ctx⟩ mid ⟨rfl, front, h, rest, rfl, split, here, falls⟩
    dsimp only at here
    subst here
    change Ends (if front.length > 0 then _ else _) _ _
    rw [ends_ite]
    constructor
    · intro more
      rcases List.eq_nil_or_concat front with rfl | ⟨front', x, rfl⟩
      · exact absurd more (Nat.lt_irrefl 0)
      · rw [List.concat_eq_append] at split more ⊢
        have size : (front' ++ [x]).length = front'.length + 1 := by
          rw [List.length_append, List.length_singleton]
        have sizes := congrArg List.length split
        rw [List.length_append, size, List.length_cons] at sizes
        rw [size, Nat.add_sub_cancel, ends_bind]
        apply ends_goesBefore orders holds (by omega) (by omega)
        intro ctx
        have atX : elems[front'.length] = x := by
          simp only [split, List.append_assoc, List.getElem_append_right (Nat.le_refl _), Nat.sub_self,
            List.singleton_append, List.getElem_cons_zero]
        have atH : elems[front'.length + 1] = h := by
          simp only [split, List.append_assoc, List.getElem_append_right (Nat.le_add_right _ _),
            Nat.add_sub_cancel_left, List.singleton_append, List.getElem_cons_succ, List.getElem_cons_zero]
        rw [atX, atH, ends_ite, decide_eq_true_eq]
        constructor
        · intro rises
          rw [ends_pure, ← size]
          exact done _ _ ctx split falls (Or.inr ⟨front', x, h, rest, rfl, rfl, rises⟩)
        · intro flat
          rw [ends_pure]
          have below : order h x ≤ 0 := by
            have sign := orders.antisymm h x
            have back := orders.antisymm x h
            omega
          refine ⟨front'.length, Nat.lt_succ_self _, rfl, front', x, h :: rest, rfl, ?_, rfl, ?_⟩
          · rw [split, List.append_assoc]
            rfl
          · refine List.pairwise_cons.mpr ⟨fun y inside => ?_, falls⟩
            rcases List.mem_cons.mp inside with rfl | behind
            · exact below
            · exact orders.trans ((List.pairwise_cons.mp falls).1 y behind) below
    · intro none_
      have empty : front = [] := List.eq_nil_of_length_eq_zero (by omega)
      rw [ends_pure]
      exact done front (h :: rest) ctx split falls (Or.inl empty)
  · rw [List.length_dropLast, length]

/-- The mate is the last elem above the pivot. -/
theorem ends_findMate {rest : List α} {h : α} (orders : cmp.Orders order)
    (holds : Holds heap.blocks s (front ++ x :: h :: rest)) (rises : order x h < 0) {post : Nat × C -> SpanMem α -> Prop}
    (done : forall hi m lo ctx, h :: rest = hi ++ m :: lo -> order x m < 0 ->
      (forall y, y ∈ lo -> ¬ order x y < 0) -> post (front.length + 1 + hi.length, ctx) heap) :
    Ends (findMate s cmp ctx true front.length) heap post := by
  have length := holds.length
  simp only [List.length_append, List.length_cons] at length
  have some_ : h :: rest ≠ [] := List.cons_ne_nil _ _
  have last : s.len - 1 = front.length + 1 + (h :: rest).dropLast.length := by
    rw [List.length_dropLast, List.length_cons]
    omega
  -- none of the elems behind the mate is above the pivot
  refine ends_loop (fun rounds (vars : Nat × C) mid => mid = heap ∧ exists hi m lo, rounds = hi.length ∧
    h :: rest = hi ++ m :: lo ∧ vars.1 = front.length + 1 + hi.length ∧ forall y, y ∈ lo -> ¬ order x y < 0) ?_
    (n := (h :: rest).dropLast.length) ⟨rfl, (h :: rest).dropLast, (h :: rest).getLast some_, [], rfl,
      (List.dropLast_append_getLast some_).symm, last, fun _ impossible => nomatch impossible⟩ (by omega)
  rintro rounds ⟨mate, ctx⟩ mid ⟨rfl, hi, m, lo, rfl, split, here, low⟩
  dsimp only at here
  subst here
  change Ends (if front.length + 1 + hi.length > front.length + 1 then _ else _) _ _
  have sizes := congrArg List.length split
  simp only [List.length_append, List.length_cons] at sizes
  rw [ends_ite]
  constructor
  · intro more
    have inside : front.length + 1 + hi.length < (front ++ x :: h :: rest).length := by
      simp only [List.length_append, List.length_cons]
      omega
    have pivot : front.length < (front ++ x :: h :: rest).length := by omega
    rw [ends_bind]
    apply ends_goesBefore orders holds pivot inside
    intro ctx
    have atX : (front ++ x :: h :: rest)[front.length] = x := by
      have found : (front ++ x :: h :: rest)[front.length]? = some x := by
        rw [List.getElem?_append_right (Nat.le_refl _), Nat.sub_self]
        rfl
      rwa [List.getElem?_eq_getElem pivot, Option.some.injEq] at found
    have atM : (front ++ x :: h :: rest)[front.length + 1 + hi.length] = m := by
      have whole : front ++ x :: h :: rest = (front ++ [x] ++ hi) ++ m :: lo := by
        rw [split]
        simp only [List.append_assoc, List.cons_append, List.nil_append]
      have size : front.length + 1 + hi.length = (front ++ [x] ++ hi).length := by
        simp only [List.length_append, List.length_singleton]
      have found : (front ++ x :: h :: rest)[front.length + 1 + hi.length]? = some m := by
        rw [whole, size, List.getElem?_append_right (Nat.le_refl _), Nat.sub_self]
        rfl
      rwa [List.getElem?_eq_getElem inside, Option.some.injEq] at found
    rw [atX, atM, ends_ite, decide_eq_true_eq]
    constructor
    · intro above
      rw [ends_pure]
      exact done hi m lo ctx split above low
    · intro notAbove
      rcases List.eq_nil_or_concat hi with rfl | ⟨hi', m', rfl⟩
      · exact absurd more (Nat.lt_irrefl _)
      · rw [List.concat_eq_append] at split ⊢
        rw [ends_pure]
        refine ⟨hi'.length, ?_, rfl, hi', m', m :: lo, rfl, ?_, ?_, ?_⟩
        · rw [List.length_append, List.length_singleton]
          omega
        · rw [split, List.append_assoc]
          rfl
        · dsimp only
          rw [List.length_append, List.length_singleton]
          omega
        · intro y inside
          rcases List.mem_cons.mp inside with rfl | behind
          · exact notAbove
          · exact low y behind
  · intro first
    have none_ : hi = [] := List.eq_nil_of_length_eq_zero (by omega)
    subst none_
    have same : h = m := (List.cons.inj split).1
    subst same
    rw [ends_pure]
    exact done [] h lo ctx split rises low
/-- What a step with this answer leaves. -/
structure Stepped (order : α -> α -> Int) (elems : List α) (more : Bool) (out : List α) : Prop where
  perm : out.Perm elems
  succeeds : more = true -> Succeeds order elems out
  last : more = false -> forall other : List α, other.Perm elems -> ¬ lexCompare order elems other < 0
  sorted : more = false -> out.Pairwise (Cmp.le order)

theorem Falls.stepped (falls : Falls order elems) (orders : cmp.Orders order) :
    Stepped order elems false elems.reverse :=
  ⟨List.reverse_perm _, fun impossible => absurd impossible Bool.false_ne_true, fun _ _ perm => falls.greatest orders perm,
    fun _ => falls.sorted⟩

theorem Falls.of_short (short : elems.length < 2) : Falls order elems ∧ elems.reverse = elems := by
  rcases short_cases short with rfl | ⟨_, rfl⟩
  · exact ⟨List.Pairwise.nil, rfl⟩
  · exact ⟨List.pairwise_singleton _ _, rfl⟩

theorem ends_permuteStep (orders : cmp.Orders order) (holds : Holds heap.blocks s elems)
    {post : Bool × C -> SpanMem α -> Prop}
    (done : forall more out ctx (later : SpanMem α), Stepped order elems more out ->
      later.blocks = place heap.blocks s out -> post (more, ctx) later) :
    Ends (permuteStep s cmp ctx true) heap post := by
  have length := holds.length
  unfold permuteStep
  by_cases short : s.len < 2
  · rw [if_pos short, ends_pure]
    have few : elems.length < 2 := by omega
    rcases (Falls.of_short few : Falls order elems ∧ _) with ⟨falls, same⟩
    have stepped := falls.stepped orders
    rw [same] at stepped
    exact done false elems ctx heap stepped holds.place_same.symm
  · rw [if_neg short, ends_bind]
    have some_ : elems ≠ [] := List.ne_nil_of_length_pos (by omega)
    apply ends_findPivot orders holds some_
    intro front suffix ctx split falls found
    rcases found with rfl | ⟨front, x, h, rest, rfl, rfl, rises⟩
    · -- the whole span falls
      rw [List.nil_append] at split
      subst split
      simp only [List.length_nil, if_true, ends_bind]
      apply ends_reverse holds
      intro later turned
      rw [ends_pure]
      exact done false _ ctx later (falls.stepped orders) turned
    · have size : (front ++ [x]).length = front.length + 1 := by
        rw [List.length_append, List.length_singleton]
      have whole : elems = front ++ x :: h :: rest := by
        rw [split, List.append_assoc]
        rfl
      subst whole
      simp only [size, Nat.succ_ne_zero, if_false, Nat.add_sub_cancel, ends_bind]
      apply ends_findMate orders holds rises
      intro hi m lo ctx split' up low
      rw [split'] at holds length falls done
      have lengths := length
      simp only [List.length_append, List.length_cons] at lengths
      apply ends_swapElems holds (by simp only [List.length_append, List.length_cons]; omega)
        (by simp only [List.length_append, List.length_cons]; omega)
      intro swapped exchange
      have apart : front.length + 1 + hi.length = front.length + (hi.length + 1) := by omega
      have lengthSwapped : (front ++ [m] ++ (hi ++ x :: lo) ++ []).length = (front ++ x :: (hi ++ m :: lo)).length := by
        simp only [List.length_append, List.length_cons, List.length_nil]
        omega
      have regroup : front ++ m :: (hi ++ x :: lo) = front ++ [m] ++ (hi ++ x :: lo) ++ [] := by
        simp only [List.append_assoc, List.singleton_append, List.append_nil]
      rw [apart, exchanged_two, regroup] at exchange
      have now : Holds swapped.blocks s (front ++ [m] ++ (hi ++ x :: lo) ++ []) := by
        rw [exchange]
        exact holds.placed lengthSwapped
      have start : front.length + 1 = (front ++ [m]).length := by rw [List.length_append, List.length_singleton]
      have rest_ : s.len - front.length - 1 = (hi ++ x :: lo).length := by
        simp only [List.length_append, List.length_cons]
        omega
      have within : (front ++ [m]).length + (hi ++ x :: lo).length ≤ s.len := by
        simp only [List.length_append, List.length_cons, List.length_nil]
        omega
      rw [start, rest_, ends_sub (Over.asserts now) within]
      apply ends_reverse now.part
      intro later turned
      rw [now.place_part List.length_reverse, exchange, holds.place_place lengthSwapped
        (by simp only [List.length_append, List.length_reverse, List.length_cons, List.length_nil]; omega)] at turned
      have final : front ++ [m] ++ (hi ++ x :: lo).reverse ++ [] = front ++ m :: (hi ++ x :: lo).reverse := by
        simp only [List.append_assoc, List.singleton_append, List.append_nil]
      rw [final] at turned
      have succeeds : Succeeds order (front ++ x :: (hi ++ m :: lo)) (front ++ m :: (hi ++ x :: lo).reverse) :=
        falls.succeeds orders up low
      rw [ends_pure]
      exact done true _ ctx later ⟨succeeds.perm, fun _ => succeeds,
        fun impossible => absurd impossible.symm Bool.false_ne_true,
        fun impossible => absurd impossible.symm Bool.false_ne_true⟩ turned

theorem ends_nextPermutation (orders : cmp.Orders order) (holds : Holds heap.blocks s elems)
    {post : Bool × C -> SpanMem α -> Prop}
    (done : forall more out ctx (later : SpanMem α), Stepped order elems more out ->
      later.blocks = place heap.blocks s out -> post (more, ctx) later) :
    Ends (nextPermutation s cmp ctx) heap post := by
  simp only [nextPermutation, ends_bind, ends_assertSpan (Over.asserts holds)]
  exact ends_permuteStep orders holds done

/-- The walk down is the walk up with the comparator turned. -/
theorem permuteStep_turned : permuteStep s cmp ctx false = permuteStep s (fun x y => cmp y x) ctx true := rfl

theorem ends_prevPermutation (orders : cmp.Orders order) (holds : Holds heap.blocks s elems)
    {post : Bool × C -> SpanMem α -> Prop}
    (done : forall more out ctx (later : SpanMem α), Stepped (fun x y => order y x) elems more out ->
      later.blocks = place heap.blocks s out -> post (more, ctx) later) :
    Ends (prevPermutation s cmp ctx) heap post := by
  simp only [prevPermutation, ends_bind, ends_assertSpan (Over.asserts holds), permuteStep_turned]
  exact ends_permuteStep orders.turned holds done

theorem Succeeds.turned (succeeds : Succeeds (fun x y => order y x) elems out) : Precedes order elems out := by
  have length := succeeds.perm.length_eq
  refine ⟨succeeds.perm, ?_, fun other perm below => ?_⟩
  · have above := succeeds.above
    rwa [lexCompare_turned length.symm] at above
  · have least := succeeds.least other perm
    rw [lexCompare_turned perm.length_eq.symm, lexCompare_turned (length.trans perm.length_eq.symm)] at least
    exact least below

/-- Between a list and its successor there is none, so the step back leads to it. -/
theorem Succeeds.back {restored : List α} (orders : cmp.Orders order) (succeeds : Succeeds order elems out)
    (precedes : Precedes order out restored) : restored.Perm elems ∧ lexCompare order restored elems = 0 := by
  have perm := precedes.perm.trans succeeds.perm
  refine ⟨perm, ?_⟩
  have notBelow := precedes.greatest elems succeeds.perm.symm succeeds.above
  rw [(signOrder orders).lexCompare_le_iff] at notBelow
  have notAbove : ¬ lexCompare order elems restored < 0 := by
    intro above
    have far := succeeds.least restored perm above
    rw [(signOrder orders).lexCompare_le_iff] at far
    exact far precedes.below
  rw [← (signOrder orders).lexCompare_le_iff] at notAbove
  omega

theorem Precedes.back {restored : List α} (orders : cmp.Orders order) (precedes : Precedes order elems out)
    (succeeds : Succeeds order out restored) : restored.Perm elems ∧ lexCompare order restored elems = 0 := by
  have perm := succeeds.perm.trans precedes.perm
  refine ⟨perm, ?_⟩
  have notAbove := succeeds.least elems precedes.perm.symm precedes.below
  have notBelow : ¬ lexCompare order restored elems < 0 := by
    intro below
    have far := precedes.greatest restored perm below
    rw [(signOrder orders).lexCompare_le_iff] at far
    exact far succeeds.above
  omega

/-! ## Every permutation once -/

/-- The elems of a span, read one after another. -/
def elemsFrom (s : Span) : (count idx : Nat) -> Run (SpanMem α) (List α)
  | 0, _ => pure []
  | count + 1, idx => do
      let elem ← get s idx
      let rest ← elemsFrom s count (idx + 1)
      return elem :: rest

/-- What a do-while over `tda_span_next_permutation` visits. -/
def visitAll (s : Span) (cmp : Cmp α C) : (bound : Nat) -> C -> Run (SpanMem α) (List (List α))
  | 0, _ => failure
  | bound + 1, ctx => do
      let now ← elemsFrom s s.len 0
      let (more, ctx) ← nextPermutation s cmp ctx
      if more then
        let rest ← visitAll s cmp bound ctx
        return now :: rest
      else
        return [now]

theorem ends_elemsFrom (holds : Holds heap.blocks s (left ++ right)) {post : List α -> SpanMem α -> Prop} :
    Ends (elemsFrom s right.length left.length) heap post <-> post right heap := by
  induction right generalizing left post with
  | nil => exact ends_pure _ _ _
  | cons elem right ih =>
      have shift : left ++ elem :: right = (left ++ [elem]) ++ right := by
        rw [List.append_assoc]
        rfl
      have size : left.length + 1 = (left ++ [elem]).length := by rw [List.length_append, List.length_singleton]
      rw [List.length_cons, elemsFrom, ends_bind, ends_get_at holds rfl, ends_bind, size,
        ih (shift ▸ holds), ends_pure]

/-- The rearrangements above a list. -/
def higher (order : α -> α -> Int) (elems : List α) : Set (List α) :=
  {other | other.Perm elems ∧ lexCompare order elems other < 0}

theorem ncard_higher_le : (higher order elems).ncard ≤ elems.length.factorial :=
  (Set.ncard_le_ncard (fun _ inside => inside.1) (finite_arrangements elems)).trans (ncard_arrangements_le elems)

/-- A step leaves fewer to come. -/
theorem Succeeds.fewer (orders : cmp.Orders order) (succeeds : Succeeds order elems out) :
    (higher order out).ncard < (higher order elems).ncard := by
  refine Set.ncard_lt_ncard ⟨?_, ?_⟩ ((finite_arrangements elems).subset fun _ inside => inside.1)
  · rintro other ⟨perm, rises⟩
    have permElems := perm.trans succeeds.perm
    refine ⟨permElems, (signOrder orders).lexCompare_lt_of_lt_of_le succeeds.above ?_⟩
    exact Int.le_of_lt rises
  · intro all
    have itself := (all ⟨succeeds.perm, succeeds.above⟩ : out ∈ higher order out).2
    rw [(signOrder orders).lexCompare_self] at itself
    exact absurd itself (Int.lt_irrefl 0)

/-- From any permutation on, those that are not below it are visited once each, in order. -/
theorem ends_visitAll {bound : Nat} (orders : cmp.Orders order) (holds : Holds heap.blocks s elems)
    (enough : (higher order elems).ncard < bound) {post : List (List α) -> SpanMem α -> Prop}
    (done : forall visited out (later : SpanMem α), later.blocks = place heap.blocks s out -> out.Perm elems ->
      out.Pairwise (Cmp.le order) -> (forall visit, visit ∈ visited -> visit.Perm elems ∧ ¬ lexCompare order visit elems < 0) ->
      visited.Pairwise (fun first second => lexCompare order first second < 0) ->
      (forall other : List α, other.Perm elems -> ¬ lexCompare order other elems < 0 ->
        exists visit, visit ∈ visited ∧ lexCompare order visit other = 0) -> post visited later) :
    Ends (visitAll s cmp bound ctx) heap post := by
  induction bound generalizing heap elems ctx post with
  | zero => exact absurd enough (Nat.not_lt_zero _)
  | succ bound ih =>
      have whole : Holds heap.blocks s ([] ++ elems) := holds
      rw [visitAll, ends_bind, ← holds.length]
      apply (ends_elemsFrom whole).mpr
      rw [ends_bind]
      apply ends_nextPermutation orders holds
      intro more out ctx mid stepped put
      have itself : ¬ lexCompare order elems elems < 0 := by
        rw [(signOrder orders).lexCompare_self]
        exact Int.lt_irrefl 0
      cases more with
      | false =>
          simp only [Bool.false_eq_true, if_false, ends_pure]
          refine done [elems] out mid put stepped.perm (stepped.sorted rfl) ?_ (List.pairwise_singleton _ _) ?_
          · intro visit inside
            rw [List.mem_singleton.mp inside]
            exact ⟨List.Perm.refl _, itself⟩
          · intro other perm notBelow
            refine ⟨elems, List.mem_singleton_self _, ?_⟩
            have notAbove := stepped.last rfl other perm
            rw [← (signOrder orders).lexCompare_le_iff] at notBelow
            omega
      | true =>
          have succeeds := stepped.succeeds rfl
          have fewer := succeeds.fewer orders
          have now : Holds mid.blocks s out := by
            rw [put]
            exact holds.placed succeeds.perm.length_eq
          simp only [if_true, ends_bind]
          apply ih now (by omega)
          intro visited final later putLater permFinal sorted visits rising covers
          rw [ends_pure]
          have perm := permFinal.trans succeeds.perm
          rw [put, holds.place_place succeeds.perm.length_eq perm.length_eq] at putLater
          refine done (elems :: visited) final later putLater perm sorted ?_ (List.pairwise_cons.mpr ⟨?_, rising⟩) ?_
          · intro visit inside
            rcases List.mem_cons.mp inside with rfl | behind
            · exact ⟨List.Perm.refl _, itself⟩
            · rcases visits visit behind with ⟨permVisit, notBelow⟩
              refine ⟨permVisit.trans succeeds.perm, fun below => notBelow ?_⟩
              have still : lexCompare order elems out ≤ 0 := Int.le_of_lt succeeds.above
              exact (signOrder orders).lexCompare_lt_of_lt_of_le below still
          · intro visit inside
            rcases visits visit inside with ⟨permVisit, notBelow⟩
            rw [← (signOrder orders).lexCompare_le_iff] at notBelow
            exact (signOrder orders).lexCompare_lt_of_lt_of_le succeeds.above notBelow
          · intro other permOther notBelow
            by_cases rises : lexCompare order elems other < 0
            · have reached := succeeds.least other permOther rises
              have permOut := permOther.trans succeeds.perm.symm
              rw [(signOrder orders).lexCompare_le_iff] at reached
              rcases covers other permOut reached with ⟨visit, inside, same⟩
              exact ⟨visit, List.mem_cons_of_mem _ inside, same⟩
            · refine ⟨elems, List.mem_cons_self, ?_⟩
              rw [← (signOrder orders).lexCompare_le_iff] at notBelow
              omega

/-- Stepping goes through the permutations in the order of `tda_span_cmp`:
there is a step if there is a permutation further on, it leads to the nearest
one, and stepping back undoes it; from a sorted span on every permutation comes
up once. -/
theorem Holds.permutes (holds : Holds heap.blocks s elems) (orders : cmp.Orders order) (ctx : C) :
    (forall (b : Span) (others : List α), Holds heap.blocks b others -> s.elem = b.elem ->
      Ends (Span.cmp s b cmp ctx) heap fun result later => later = heap ∧ result.1 = lexCompare order elems others) ∧
    (Ends (nextPermutation s cmp ctx) heap fun result later => exists out,
      later.blocks = place heap.blocks s out ∧ out.Perm elems ∧
        (result.1 = true <-> exists other : List α, other.Perm elems ∧ lexCompare order elems other < 0) ∧
        (result.1 = false -> out.Pairwise (Cmp.le order)) ∧
        (result.1 = true -> Succeeds order elems out ∧
          Ends (prevPermutation s cmp result.2) later fun back final => back.1 = true ∧ exists restored,
            final.blocks = place heap.blocks s restored ∧ restored.Perm elems ∧ lexCompare order restored elems = 0)) ∧
    (Ends (prevPermutation s cmp ctx) heap fun result later => exists out,
      later.blocks = place heap.blocks s out ∧ out.Perm elems ∧
        (result.1 = true <-> exists other : List α, other.Perm elems ∧ lexCompare order other elems < 0) ∧
        (result.1 = false -> out.Pairwise fun x y => Cmp.le order y x) ∧
        (result.1 = true -> Precedes order elems out ∧
          Ends (nextPermutation s cmp result.2) later fun forth final => forth.1 = true ∧ exists restored,
            final.blocks = place heap.blocks s restored ∧ restored.Perm elems ∧ lexCompare order restored elems = 0)) ∧
    (elems.Pairwise (Cmp.le order) ->
      Ends (visitAll s cmp (elems.length.factorial + 1) ctx) heap fun visited later => exists out,
        later.blocks = place heap.blocks s out ∧ out.Perm elems ∧ out.Pairwise (Cmp.le order) ∧
          (forall visit, visit ∈ visited -> visit.Perm elems) ∧
          visited.Pairwise (fun first second => lexCompare order first second < 0) ∧
          forall other : List α, other.Perm elems -> exists visit, visit ∈ visited ∧ lexCompare order visit other = 0) := by
  refine ⟨?_, ?_, ?_, ?_⟩
  · intro b others holdsOther sameElem
    exact ends_cmp holds holdsOther sameElem orders fun ctx => ⟨rfl, rfl⟩
  · apply ends_nextPermutation orders holds
    intro more out ctx later stepped put
    refine ⟨out, put, stepped.perm, ?_, stepped.sorted, fun stepped_ => ?_⟩
    · cases more with
      | false => exact iff_of_false Bool.false_ne_true fun ⟨other, perm, rises⟩ => stepped.last rfl other perm rises
      | true => exact iff_of_true rfl ⟨out, (stepped.succeeds rfl).perm, (stepped.succeeds rfl).above⟩
    · have succeeds := stepped.succeeds stepped_
      have now : Holds later.blocks s out := by
        rw [put]
        exact holds.placed succeeds.perm.length_eq
      refine ⟨succeeds, ends_prevPermutation orders now ?_⟩
      intro back restored ctx final steppedBack putBack
      rw [put, holds.place_place succeeds.perm.length_eq (steppedBack.perm.trans succeeds.perm).length_eq] at putBack
      cases back with
      | false =>
          have none_ := steppedBack.last rfl elems succeeds.perm.symm
          rw [lexCompare_turned succeeds.perm.length_eq] at none_
          exact absurd succeeds.above none_
      | true =>
          have undone := succeeds.back orders (steppedBack.succeeds rfl).turned
          exact ⟨rfl, restored, putBack, undone.1, undone.2⟩
  · apply ends_prevPermutation orders holds
    intro more out ctx later stepped put
    refine ⟨out, put, stepped.perm, ?_, stepped.sorted, fun stepped_ => ?_⟩
    · cases more with
      | false =>
          refine iff_of_false Bool.false_ne_true ?_
          rintro ⟨other, perm, falls⟩
          have none_ := stepped.last rfl other perm
          rw [lexCompare_turned perm.length_eq.symm] at none_
          exact none_ falls
      | true =>
          have precedes := (stepped.succeeds rfl).turned
          exact iff_of_true rfl ⟨out, precedes.perm, precedes.below⟩
    · have precedes := (stepped.succeeds stepped_).turned
      have now : Holds later.blocks s out := by
        rw [put]
        exact holds.placed precedes.perm.length_eq
      refine ⟨precedes, ends_nextPermutation orders now ?_⟩
      intro forth restored ctx final steppedForth putForth
      rw [put, holds.place_place precedes.perm.length_eq (steppedForth.perm.trans precedes.perm).length_eq] at putForth
      cases forth with
      | false => exact absurd precedes.below (steppedForth.last rfl elems precedes.perm.symm)
      | true =>
          have undone := precedes.back orders (steppedForth.succeeds rfl)
          exact ⟨rfl, restored, putForth, undone.1, undone.2⟩
  · intro sorted
    apply ends_visitAll orders holds (Nat.lt_succ_of_le ncard_higher_le)
    intro visited out later put perm sortedOut visits rising covers
    exact ⟨out, put, perm, sortedOut, fun visit inside => (visits visit inside).1, rising,
      fun other permOther => covers other permOther (sorted_least orders sorted permOther)⟩

theorem Holds.permutes_row : Ends (nextPermutation (rowSpan 0 3) byValue ()) (rowsMem [[7, 9, 8]])
    fun result later => exists out, later.blocks = place (rowsMem [[7, 9, 8]]).blocks (rowSpan 0 3) out ∧
      out.Perm [7, 9, 8] ∧ (result.1 = false -> out.Pairwise (Cmp.le fun (lhs rhs : Nat) => (lhs : Int) - rhs)) := by
  have small : [7, 9, 8].length < sizeRange := by decide
  have holds : Holds (rowsMem [[7, 9, 8]]).blocks (rowSpan 0 3) [7, 9, 8] := rowsMem_holds rfl small
  exact (holds.permutes byValue_orders ()).2.1.mono fun _ _ ⟨out, put, perm, _, sorted, _⟩ => ⟨out, put, perm, sorted⟩

end Span
end TerseDsa
