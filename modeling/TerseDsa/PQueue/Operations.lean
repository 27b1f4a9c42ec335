import TerseDsa.PQueue.Model

namespace TerseDsa

open Foundation Run BinaryHeap

/-!
# The operations on one queue

Each operation leaves the elems in some heap order of the elems that it should
leave.  Which one is of no matter outside: the rules give a row of elems only
up to its order, and that it is a heap wherever the comparator orders the elems.
-/

namespace PQueue

variable {α C : Type} {heap : VecMem α} {self : PQueue α C} {row : List α} {world : C} {elem : Layout} {al : Al}
  {cmp : Option Addr -> Cmp α C} {ctx : Option Addr}

/-- The comparator of the queue is a total preorder, with these answers. -/
def Serves (self : PQueue α C) (order : α -> α -> Int) : Prop :=
  exists cmp, self.cmp = some cmp ∧ (cmp self.ctx).Orders order

/-- The row is a heap in every order of the queue. -/
def Heaped (self : PQueue α C) (row : List α) : Prop := forall order, self.Serves order -> RowHeap (Cmp.le order) row

/-- A queue in memory, of a row of elems that is a heap. -/
structure Holds (blocks : Blocks AlTag (List (Option α))) (queue : PQueue α C) (row : List α) : Prop where
  vec : Vec.Holds blocks queue.vec row
  cmp : queue.cmp.isSome = true
  heaped : queue.Heaped row

/-- From one queue to another in its place, of the same comparator. -/
structure Tends (blocks later : Blocks AlTag (List (Option α))) (queue after : PQueue α C) (row : List α) : Prop where
  vec : Vec.Tends blocks later queue.vec after.vec row
  cmp : after.cmp = queue.cmp
  ctx : after.ctx = queue.ctx
  heaped : queue.Heaped row

/-- A queue that was built on blocks that were not there before. -/
structure Born (before later : Blocks AlTag (List (Option α))) (queue : PQueue α C) (row : List α)
    (cmp : Option (Option Addr -> Cmp α C)) (ctx : Option Addr) : Prop where
  vec : exists elem al, Vec.Born before later queue.vec row elem al
  cmp : queue.cmp = cmp
  ctx : queue.ctx = ctx
  heaped : queue.Heaped row

/-! ## Heaps -/

theorem heaped_nil : self.Heaped ([] : List α) := fun _ _ => rowHeap_iff.mpr (Heap.short (Nat.zero_le 1))

/-- No elem is greater than the one at the root. -/
theorem Heaped.top {order : α -> α -> Int} {val : α} (heaped : self.Heaped row) (serves : self.Serves order)
    (root : row[0]? = some val) {elem : α} (member : elem ∈ row) : Cmp.le order elem val := by
  have whole := heaped order serves
  rcases serves with ⟨cmp, _, orders⟩
  exact whole.top_greatest orders.preorder root member

/-! ## Checks and access -/

section Checks

variable {S : Type} {s : S}

theorem Holds.ends_assert {blocks : Blocks AlTag (List (Option α))} (holds : Holds blocks self row)
    {post : Unit -> S -> Prop} : Ends (assertPQueue self) s post <-> post () s := by
  simp only [assertPQueue, ends_bind, ends_require, holds.vec.real, holds.cmp, true_and]

theorem ends_comparator (known : self.cmp = some cmp) {post : Cmp α C -> S -> Prop} :
    Ends (comparator self) s post <-> post (cmp self.ctx) s := by
  simp only [comparator, ends_bind, known, ends_demand_some, ends_pure]

end Checks

theorem serves_iff {order : α -> α -> Int} (known : self.cmp = some cmp) :
    self.Serves order <-> (cmp self.ctx).Orders order := by
  constructor
  · rintro ⟨other, same, orders⟩
    cases known.symm.trans same
    exact orders
  · exact fun orders => ⟨cmp, known, orders⟩

namespace Holds

variable {blocks later : Blocks AlTag (List (Option α))} {after : PQueue α C} {now : List α} {vec : Vec}

theorem known (holds : Holds blocks self row) : exists cmp, self.cmp = some cmp := Option.isSome_iff_exists.mp holds.cmp

theorem tended (holds : Holds blocks self row) (tends : Tends blocks later self after now) : Holds later after now := by
  refine ⟨tends.vec.holds, tends.cmp ▸ holds.cmp, fun order serves => tends.heaped order ?_⟩
  unfold Serves at serves
  rwa [tends.cmp, tends.ctx] at serves

end Holds

theorem ends_top {val : α} (holds : Holds heap.blocks self row) (root : row[0]? = some val)
    {post : α -> VecMem α -> Prop} : Ends (top self) heap post <-> post val heap := by
  have some_ : self.vec.len > 0 := holds.vec.len ▸ (List.getElem?_eq_some_iff.mp root).1
  simp only [top, ends_bind, ends_require, holds.vec.real, some_, true_and, Vec.ends_elem holds.vec root]

/-! ## Lifetime -/

theorem ends_initCap {cap : Nat} (isType : elem.isType = true) (real : al.isSome = true)
    {post : Status × Option (PQueue α C) -> VecMem α -> Prop}
    (refused : heap.Spared (post (.errNoMem, none)))
    (done : forall (after : PQueue α C) (later : VecMem α), Born heap.blocks later.blocks after [] (some cmp) ctx ->
      post (.ok, some after) later) :
    Ends (initCap cap elem cmp ctx al) heap post := by
  simp only [initCap, ends_bind, ends_require, isType, real, true_and]
  apply Vec.ends_initCap isType real
  · intro later same
    simp only [if_refused, ends_pure]
    exact refused later same
  · intro vec later born
    simp only [if_granted, ends_bind, ends_demand_some, ends_pure]
    exact done _ later ⟨⟨elem, al, born⟩, rfl, rfl, heaped_nil⟩

theorem ends_fromData {data : List α} (isType : elem.isType = true) (real : al.isSome = true)
    {post : Status × Option (PQueue α C) × C -> VecMem α -> Prop}
    (refused : heap.Spared (post (.errNoMem, none, world)))
    (done : forall (after : PQueue α C) (row : List α) (next : C) (later : VecMem α), row.Perm data ->
      Born heap.blocks later.blocks after row (some cmp) ctx -> post (.ok, some after, next) later) :
    Ends (fromData data elem cmp ctx al world) heap post := by
  simp only [fromData, ends_bind, ends_require, isType, real, true_and]
  apply Vec.ends_fromData isType real
  · intro later same
    simp only [if_refused, ends_pure]
    exact refused later same
  · intro vec mid born
    simp only [if_granted, ends_bind, ends_demand_some, Vec.ends_toSpan born.holds]
    apply Span.ends_makeHeap born.holds.span_holds
    intro now next later put perm built
    rw [ends_pure]
    have placed := born.holds.placed perm.length_eq put
    refine done _ now next later perm ⟨⟨elem, al, placed.holds, born.evolves.trans placed.evolves, born.elem, born.al⟩,
      rfl, rfl, fun order serves => built order ((serves_iff rfl).mp serves)⟩

theorem ends_copyWith (holds : Holds heap.blocks self row) (real : al.isSome = true)
    {post : Status × Option (PQueue α C) -> VecMem α -> Prop}
    (refused : heap.Spared (post (.errNoMem, none)))
    (done : forall (after : PQueue α C) (later : VecMem α), Born heap.blocks later.blocks after row self.cmp self.ctx ->
      post (.ok, some after) later) :
    Ends (copyWith self al) heap post := by
  simp only [copyWith, ends_bind, holds.ends_assert, ends_require, real, true_and]
  apply Vec.ends_copyWith holds.vec real
  · intro later same
    simp only [if_refused, ends_pure]
    exact refused later same
  · intro vec later born
    simp only [if_granted, ends_bind, ends_demand_some, ends_pure]
    exact done _ later ⟨⟨_, al, born⟩, rfl, rfl, holds.heaped⟩

/-! ## Putting elems in -/

theorem ends_push {named : Operand α} {val : α} (holds : Holds heap.blocks self row) (names : Vec.Names row val named)
    {post : Status × PQueue α C × C -> VecMem α -> Prop}
    (refused : heap.Spared (post (.errNoMem, self, world)))
    (done : forall (after : PQueue α C) (now : List α) (next : C) (later : VecMem α), now.Perm (val :: row) ->
      Tends heap.blocks later.blocks self after now -> post (.ok, after, next) later) :
    Ends (push self named world) heap post := by
  rcases holds.known with ⟨cmp, known⟩
  simp only [push, ends_bind, holds.ends_assert]
  apply Vec.ends_push holds.vec names
  · intro later same
    simp only [if_refused, ends_pure]
    exact refused later same
  · intro vec mid tends
    have held := tends.holds
    have comparing : ({ self with vec := vec } : PQueue α C).cmp = some cmp := known
    simp only [if_granted, ends_bind, Vec.ends_toSpan held, ends_comparator comparing]
    apply Span.ends_pushHeap held.span_holds (List.concat_ne_nil val row)
    intro now next later put perm grown
    have finish : Tends heap.blocks later.blocks self { self with vec := vec } now := by
      refine ⟨tends.trans (held.placed perm.length_eq put), rfl, rfl, fun order serves => ?_⟩
      apply grown order ((serves_iff known).mp serves)
      rw [List.dropLast_concat]
      exact holds.heaped order serves
    simp only [(holds.tended finish).ends_assert, ends_pure]
    exact done _ now next later (perm.trans (List.perm_append_singleton val row)) finish

/-- The elems behind a heap join it, all at once or one by one. -/
theorem ends_restore {span : Span} {elems : List α} {compare : Cmp α C} {oldLen : Nat}
    (holds : Span.Holds heap.blocks span elems) (fewer : oldLen ≤ elems.length) {post : C -> VecMem α -> Prop}
    (done : forall (now : List α) (next : C) (later : VecMem α), later.blocks = Span.place heap.blocks span now ->
      now.Perm elems -> (forall order, compare.Orders order -> RowHeap (Cmp.le order) (elems.take oldLen) ->
        RowHeap (Cmp.le order) now) -> post next later) :
    Ends (restore span oldLen compare world) heap post := by
  have length := holds.length
  rw [restore, ends_ite]
  constructor
  · intro _
    apply Span.ends_makeHeap holds
    exact fun now next later put perm built => done now next later put perm fun order orders _ => built order orders
  · intro _
    -- when `len` is next, the `len - 1` elems in front are a heap
    refine ends_countUp (fun len _ mid => exists now,
      mid.blocks = Span.place heap.blocks span now ∧ now.Perm elems ∧ forall order, compare.Orders order ->
        RowHeap (Cmp.le order) (elems.take oldLen) -> RowHeap (Cmp.le order) (now.take (len - 1)))
      (by omega : oldLen + 1 + (span.len - oldLen) = span.len + 1) ?_ ?_
      ⟨elems, holds.place_same.symm, List.Perm.refl elems, fun _ _ front => front⟩
    · rintro len next mid low high ⟨now, put, perm, heaps⟩
      have lengthNow := perm.length_eq
      have cut : exists front back, now = front ++ back ∧ front.length = len :=
        ⟨now.take len, now.drop len, (List.take_append_drop len now).symm, List.length_take_of_le (by omega)⟩
      rcases cut with ⟨front, back, rfl, rfl⟩
      have whole : Span.Holds mid.blocks span ([] ++ front ++ back) := by
        rw [put, List.nil_append]
        exact holds.placed lengthNow
      have asserts := Span.Over.asserts whole
      rw [ends_bind, Span.ends_sub asserts (by omega)]
      apply Span.ends_pushHeap whole.part (List.ne_nil_of_length_pos (by omega))
      intro pushed following later putFront permFront grown
      have lengths := permFront.length_eq
      rw [whole.place_part lengths, List.nil_append] at putFront
      have permNext : (pushed ++ back).Perm (front ++ back) := permFront.append_right back
      refine ⟨pushed ++ back, ?_, permNext.trans perm, fun order orders start => ?_⟩
      · rw [putFront, put, holds.place_place lengthNow (permNext.trans perm).length_eq]
      · rw [Nat.add_sub_cancel, List.take_left' lengths]
        apply grown order orders
        have before := heaps order orders start
        rwa [List.take_append_of_le_length (Nat.sub_le _ _), ← List.dropLast_eq_take] at before
    · rintro next later ⟨now, put, perm, heaps⟩
      refine done now next later put perm fun order orders start => ?_
      have whole := heaps order orders start
      rwa [Nat.add_sub_cancel, ← length, List.take_of_length_le (Nat.le_of_eq perm.length_eq)] at whole

theorem ends_extend {src : SpanView α} (holds : Holds heap.blocks self row) (alike : self.vec.elem = src.elem)
    {post : Status × PQueue α C × C -> VecMem α -> Prop}
    (refused : heap.Spared (post (.errNoMem, self, world)))
    (done : forall (after : PQueue α C) (now : List α) (next : C) (later : VecMem α), now.Perm (row ++ src.elems) ->
      Tends heap.blocks later.blocks self after now -> post (.ok, after, next) later) :
    Ends (extend self src world) heap post := by
  rcases holds.known with ⟨cmp, known⟩
  simp only [extend, ends_bind, holds.ends_assert, ends_require, alike, true_and]
  apply Vec.ends_extend holds.vec alike
  · intro later same
    simp only [if_refused, ends_pure]
    exact refused later same
  · intro vec mid tends
    have held := tends.holds
    have comparing : ({ self with vec := vec } : PQueue α C).cmp = some cmp := known
    have fewer : self.vec.len ≤ (row ++ src.elems).length := by
      rw [holds.vec.len, List.length_append]
      exact Nat.le_add_right _ _
    simp only [if_granted, ends_bind, Vec.ends_toSpan held, ends_comparator comparing]
    apply ends_restore held.span_holds fewer
    intro now next later put perm grown
    have finish : Tends heap.blocks later.blocks self { self with vec := vec } now := by
      refine ⟨tends.trans (held.placed perm.length_eq put), rfl, rfl, fun order serves => ?_⟩
      apply grown order ((serves_iff known).mp serves)
      rw [List.take_left' holds.vec.len.symm]
      exact holds.heaped order serves
    simp only [(holds.tended finish).ends_assert, ends_pure]
    exact done _ now next later perm finish

/-! ## Taking elems out -/

/-- What is in front of the elem that was taken out is the queue that is left. -/
theorem Holds.taken {blocks later last : Blocks AlTag (List (Option α))} {rest : List α} {top : α} {vec : Vec}
    (holds : Holds blocks self row) (placed : Vec.Tends blocks later self.vec self.vec (rest ++ [top]))
    (shortened : Vec.Tends later last self.vec vec rest)
    (takes : forall cmp, self.cmp = some cmp -> forall order, (cmp self.ctx).Orders order ->
      RowHeap (Cmp.le order) row -> RowHeap (Cmp.le order) rest) :
    Tends blocks last self { self with vec := vec } rest := by
  refine ⟨placed.trans shortened, rfl, rfl, fun order serves => ?_⟩
  rcases serves with ⟨cmp, known, orders⟩
  exact takes cmp known order orders (holds.heaped order ⟨cmp, known, orders⟩)

theorem ends_pop (holds : Holds heap.blocks self row) (some_ : row ≠ []) {post : PQueue α C × C -> VecMem α -> Prop}
    (done : forall (after : PQueue α C) (top : α) (rest : List α) (next : C) (later : VecMem α),
      row[0]? = some top -> row.Perm (top :: rest) -> Tends heap.blocks later.blocks self after rest ->
      post (after, next) later) :
    Ends (pop self world) heap post := by
  rcases holds.known with ⟨cmp, known⟩
  have positive : self.vec.len > 0 := holds.vec.len ▸ List.length_pos_of_ne_nil some_
  simp only [pop, ends_bind, holds.ends_assert, ends_require, positive, true_and, Vec.ends_toSpan holds.vec,
    ends_comparator known]
  apply Span.ends_popHeap holds.vec.span_holds some_
  intro rest top next later root put perm takes
  have placed := holds.vec.placed perm.length_eq put
  apply Vec.ends_pop placed.holds
  intro vec shortened
  have finish : Tends heap.blocks later.blocks self { self with vec := vec } rest :=
    holds.taken placed shortened fun other same order orders whole => by
      cases known.symm.trans same
      exact (takes order orders whole).1
  simp only [(holds.tended finish).ends_assert, ends_pure]
  exact done _ top rest next later root (perm.symm.trans (List.perm_append_singleton top rest)) finish

theorem ends_popTo (holds : Holds heap.blocks self row) (some_ : row ≠ [])
    {post : α × PQueue α C × C -> VecMem α -> Prop}
    (done : forall (after : PQueue α C) (top : α) (rest : List α) (next : C) (later : VecMem α),
      row[0]? = some top -> row.Perm (top :: rest) -> Tends heap.blocks later.blocks self after rest ->
      post (top, after, next) later) :
    Ends (popTo self .outside world) heap post := by
  rcases holds.known with ⟨cmp, known⟩
  have positive : self.vec.len > 0 := holds.vec.len ▸ List.length_pos_of_ne_nil some_
  simp only [popTo, ends_bind, holds.ends_assert, ends_require, positive, true_and, Vec.ends_toSpan holds.vec,
    ends_comparator known]
  apply Span.ends_popHeap holds.vec.span_holds some_
  intro rest top next mid root put perm takes
  have placed := holds.vec.placed perm.length_eq put
  have outside : Vec.Reaches self.vec .outside := trivial
  apply Vec.ends_popTo placed.holds outside
  intro vec later shortened
  rw [Vec.putTo, List.dropLast_concat] at shortened
  have finish : Tends heap.blocks later.blocks self { self with vec := vec } rest :=
    holds.taken placed shortened fun other same order orders whole => by
      cases known.symm.trans same
      exact (takes order orders whole).1
  simp only [(holds.tended finish).ends_assert, ends_pure]
  exact done _ top rest next later root (perm.symm.trans (List.perm_append_singleton top rest)) finish

theorem ends_replaceTop {named : Operand α} {val : α} (holds : Holds heap.blocks self row) (some_ : row ≠ [])
    (names : Vec.Names row val named) {post : C -> VecMem α -> Prop}
    (done : forall (top : α) (rest now : List α) (next : C) (later : VecMem α), row = top :: rest ->
      now.Perm (val :: rest) -> Tends heap.blocks later.blocks self self now -> post next later) :
    Ends (replaceTop self named world) heap post := by
  rcases holds.known with ⟨cmp, known⟩
  have positive : self.vec.len > 0 := holds.vec.len ▸ List.length_pos_of_ne_nil some_
  rcases List.exists_cons_of_ne_nil some_ with ⟨top, rest, rfl⟩
  simp only [replaceTop, ends_bind, holds.ends_assert, ends_require, positive, true_and]
  apply Vec.ends_set holds.vec names positive
  intro mid tends
  have held := tends.holds
  have length := held.len
  simp only [Vec.ends_toSpan held, ends_comparator known]
  apply Span.ends_siftDown held.span_holds (Nat.le_of_eq length)
  intro now next later put rearranged repairs
  have perm := rearranged.perm
  refine done top rest now next later rfl perm ⟨tends.trans (held.placed perm.length_eq put), rfl, rfl, ?_⟩
  intro order serves
  have before := rowHeap_iff.mp (holds.heaped order serves)
  have sinking : Sinking (Span.keyLe order) (fun idx => (val :: rest)[idx]?) 0 (Vec.span self.vec).len 0 := by
    apply Sinking.of_root (before.shorter (Nat.le_of_eq length))
    intro idx above _
    rw [List.getElem?_cons, if_neg (by omega), List.getElem?_cons, if_neg (by omega)]
  have whole := heap_iff.mpr (repairs order 0 ((serves_iff known).mp serves) sinking)
  refine rowHeap_iff.mpr ?_
  rwa [perm.length_eq, ← length]

theorem ends_clear (holds : Holds heap.blocks self row) {post : PQueue α C -> VecMem α -> Prop}
    (done : forall after : PQueue α C, Tends heap.blocks heap.blocks self after [] -> post after heap) :
    Ends (clear self) heap post := by
  simp only [clear, ends_bind, holds.ends_assert]
  apply Vec.ends_clear holds.vec
  intro vec tends
  have finish : Tends heap.blocks heap.blocks self { self with vec := vec } [] := ⟨tends, rfl, rfl, heaped_nil⟩
  simp only [(holds.tended finish).ends_assert, ends_pure]
  exact done _ finish

/-! ## Room -/

theorem ends_reserve {newCap : Nat} (holds : Holds heap.blocks self row)
    {post : Status × PQueue α C -> VecMem α -> Prop}
    (refused : heap.Spared (post (.errNoMem, self)))
    (done : forall (after : PQueue α C) (later : VecMem α), Tends heap.blocks later.blocks self after row ->
      post (.ok, after) later) :
    Ends (reserve self newCap) heap post := by
  simp only [reserve, ends_bind, holds.ends_assert]
  apply Vec.ends_reserve holds.vec
  · intro later same
    simp only [holds.ends_assert, ends_pure]
    exact refused later same
  · intro vec later tends _ _
    have finish : Tends heap.blocks later.blocks self { self with vec := vec } row := ⟨tends, rfl, rfl, holds.heaped⟩
    simp only [(holds.tended finish).ends_assert, ends_pure]
    exact done _ later finish

theorem ends_shrinkToFit (holds : Holds heap.blocks self row) {post : Status × PQueue α C -> VecMem α -> Prop}
    (refused : heap.Spared (post (.errNoMem, self)))
    (done : forall (after : PQueue α C) (later : VecMem α), Tends heap.blocks later.blocks self after row ->
      post (.ok, after) later) :
    Ends (shrinkToFit self) heap post := by
  simp only [shrinkToFit, ends_bind, holds.ends_assert]
  apply Vec.ends_shrinkToFit holds.vec
  · intro later same
    simp only [holds.ends_assert, ends_pure]
    exact refused later same
  · intro vec later tends
    have finish : Tends heap.blocks later.blocks self { self with vec := vec } row := ⟨tends, rfl, rfl, holds.heaped⟩
    simp only [(holds.tended finish).ends_assert, ends_pure]
    exact done _ later finish

/-! ## Serving them all -/

/-- The elems come out greatest first, and every one of them does. -/
theorem ends_drain (holds : Holds heap.blocks self row) {todo : Nat} (all : todo = row.length)
    {post : List α × PQueue α C × C -> VecMem α -> Prop}
    (done : forall (served : List α) (after : PQueue α C) (next : C) (later : VecMem α), served.Perm row ->
      (forall order, self.Serves order -> served.Pairwise fun first second => Cmp.le order second first) ->
      Tends heap.blocks later.blocks self after [] -> post (served, after, next) later) :
    Ends (drain todo self world) heap post := by
  induction todo generalizing heap self row world post with
  | zero =>
      cases List.eq_nil_of_length_eq_zero all.symm
      simp only [drain, ends_pure]
      exact done [] self world heap (List.Perm.refl _) (fun _ _ => List.Pairwise.nil)
        ⟨Vec.Tends.refl holds.vec, rfl, rfl, heaped_nil⟩
  | succ todo ih =>
      have some_ : row ≠ [] := List.ne_nil_of_length_eq_add_one all.symm
      simp only [drain, ends_bind]
      apply ends_popTo holds some_
      intro after top rest next mid root perm tends
      have left : todo = rest.length := by
        rw [perm.length_eq, List.length_cons] at all
        omega
      apply ih (holds.tended tends) left
      intro served last following later permServed sorted ended
      rw [ends_pure]
      refine done (top :: served) last following later ((permServed.cons top).trans perm.symm) ?_ ?_
      · intro order serves
        refine List.pairwise_cons.mpr ⟨fun elem member => ?_, sorted order ?_⟩
        · exact holds.heaped.top serves root (perm.mem_iff.mpr (List.mem_cons_of_mem _ (permServed.mem_iff.mp member)))
        · unfold Serves
          rwa [tends.cmp, tends.ctx]
      · exact ⟨tends.vec.trans ended.vec, ended.cmp.trans tends.cmp, ended.ctx.trans tends.ctx, heaped_nil⟩

end PQueue
end TerseDsa
