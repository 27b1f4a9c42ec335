import TerseDsa.Deque.Contents

namespace TerseDsa

open Foundation Run

/-!
# Building and releasing

Constructors build a deque over a block of its own, or leave no trace; `deinit`
gives the block back; the contents of one deque are copied over another's.
-/

namespace Deque

variable {α S : Type} {heap : DequeMem α} {self : Deque} {view : List (Option α)} {elems rest : List α}

/-- A deque that was built over a block of its own. -/
structure Born (before later : Blocks AlTag (List (Option α))) (deque : Deque) (elems : List α)
    (elem : Layout) (al : Al) : Prop where
  holds : Holds later deque elems
  evolves : Evolves before later [] deque.data.toList
  elem : deque.elem = elem
  al : deque.al = al

section Building

variable {elem : Layout} {al : Al} {cap : Nat}

theorem ends_init (isType : elem.isType = true) (real : al.isSome = true) {s : S}
    {post : Deque -> S -> Prop} :
    Ends (init elem al) s post <-> post ⟨none, 0, 0, 0, elem, al⟩ s := by
  simp only [init, ends_bind, ends_require, isType, real, true_and, ends_pure]

/-- The ring of a deque that was just built, of `cap` slots that are all alike. -/
theorem ends_initImpl {fill : Option α} {len : Nat} (isType : elem.isType = true)
    (real : al.isSome = true) (load : len ≤ cap) {post : Status × Option Deque -> DequeMem α -> Prop}
    (refused : heap.Spared (post (.errNoMem, none)))
    (done : forall (data : Option Addr) (later : DequeMem α),
      Ring later.blocks ⟨data, len, cap, 0, elem, al⟩ (List.replicate cap fill) ->
      Evolves heap.blocks later.blocks [] data.toList ->
      post (.ok, some ⟨data, len, cap, 0, elem, al⟩) later) :
    Ends (initImpl fill len cap elem al) heap post := by
  simp only [initImpl, ends_bind, ends_require, load, true_and, ends_init isType real]
  by_cases room : cap > 0
  · rw [if_pos room]
    rcases elem.ckdArray_cases cap with ⟨overflow, _⟩ | ⟨layout, fits⟩
    · simp only [overflow, ends_pure]
      exact refused heap rfl
    · simp only [layout, ends_bind]
      apply ends_alloc real
      · intro later same
        simp only [ends_pure]
        exact refused later same
      · intro _ ptr later free same
        have ring : Ring later.blocks ⟨some ptr, len, cap, 0, elem, al⟩
            (List.replicate cap fill) :=
          (Ring.of_grant real isType fits room List.length_replicate
            (by rw [same, Function.update_self]) :
            Ring later.blocks { (⟨none, len, 0, 0, elem, al⟩ : Deque) with
              data := some ptr, cap := cap, head := 0 } (List.replicate cap fill))
        simp only [ends_bind, ends_assertDeque (ring.asserts load), ends_pure]
        apply done _ later ring
        rw [same]
        exact Evolves.of_grant free fun other => by simp
  · have none_ : cap = 0 := Nat.eq_zero_of_not_pos room
    subst none_
    have empty : len = 0 := Nat.le_zero.mp load
    subst empty
    have holds : Holds heap.blocks ⟨none, 0, 0, 0, elem, al⟩ ([] : List α) :=
      Holds.of_bare real isType rfl rfl rfl rfl
    simp only [if_neg room, ends_bind, ends_assertDeque holds.asserts, ends_pure]
    apply done none heap _ (Evolves.refl _ _)
    rcases holds.ring with ⟨view, ring, _⟩
    have nothing : view = [] := List.length_eq_zero_iff.mp ring.length
    rw [nothing] at ring
    exact ring

theorem ends_initLen {zero : α} {len : Nat} (isType : elem.isType = true) (real : al.isSome = true)
    {post : Status × Option Deque -> DequeMem α -> Prop}
    (refused : heap.Spared (post (.errNoMem, none)))
    (done : forall (deque : Deque) (later : DequeMem α),
      Born heap.blocks later.blocks deque (List.replicate len zero) elem al ->
      post (.ok, some deque) later) :
    Ends (initLen zero len elem al) heap post := by
  apply ends_initImpl isType real (Nat.le_refl len) refused
  intro data later ring evolves
  apply done _ later
  constructor
  · refine ⟨⟨_, ring, ?_⟩, ?_, Nat.le_refl len⟩
    · rw [List.map_replicate, List.take_of_length_le (by rw [List.length_replicate])]
    · rw [List.length_replicate]
  · exact evolves
  · rfl
  · rfl

theorem ends_initCap (isType : elem.isType = true) (real : al.isSome = true)
    {post : Status × Option Deque -> DequeMem α -> Prop}
    (refused : heap.Spared (post (.errNoMem, none)))
    (done : forall (deque : Deque) (later : DequeMem α),
      Born heap.blocks later.blocks deque ([] : List α) elem al -> post (.ok, some deque) later) :
    Ends (initCap α cap elem al) heap post := by
  apply ends_initImpl isType real (Nat.zero_le cap) refused
  intro data later ring evolves
  apply done _ later
  exact ⟨⟨⟨_, ring, List.take_zero⟩, rfl, Nat.zero_le cap⟩, evolves, rfl, rfl⟩

/-- The block is written over from slot 0 on, where the ring starts. -/
theorem ends_fillRun {vals : List α} (ring : Ring heap.blocks self view) (head : self.head = 0)
    (len : self.len = vals.length) (load : self.len ≤ self.cap) {post : Unit -> DequeMem α -> Prop}
    (done : forall later : DequeMem α,
      Tends heap.blocks later.blocks self self vals -> post () later) :
    Ends (fillRun self.data (vals.map some)) heap post := by
  unfold fillRun
  rw [List.length_map]
  by_cases some_ : 0 < vals.length
  · rcases ring.room (by omega) with ⟨addr, slots, data, here, rotated, length, start⟩
    have fits : 0 + (vals.map some).length ≤ slots.length := by
      rw [List.length_map]
      omega
    rw [if_pos some_, ends_writeRun data here fits]
    apply done
    have turns : Turns heap.blocks _ self self
        ((overwriteAt slots 0 (vals.map some)).rotate self.head) :=
      ring.write data (by rw [overwriteAt_length fits, length])
    apply Tends.of_turns turns _ load
    rw [head, List.rotate_zero, overwriteAt, List.take_zero, List.nil_append,
      List.take_append_of_le_length (by rw [List.length_map, len]),
      List.take_of_length_le (by rw [List.length_map, len])]
  · rw [if_neg some_, ends_pure]
    apply done
    have empty : vals = [] := List.length_eq_zero_iff.mp (Nat.eq_zero_of_not_pos some_)
    rw [empty] at len ⊢
    apply Tends.of_turns (Turns.refl ring) _ load
    rw [len]
    rfl

theorem Born.of_tends {later last : DequeMem α} {deque : Deque}
    (evolves : Evolves heap.blocks later.blocks [] deque.data.toList)
    (tends : Tends later.blocks last.blocks deque deque elems) :
    Born heap.blocks last.blocks deque elems deque.elem deque.al :=
  ⟨tends.holds, evolves.trans tends.evolves, rfl, rfl⟩

theorem ends_fromData {data : List α} (isType : elem.isType = true) (real : al.isSome = true)
    {post : Status × Option Deque -> DequeMem α -> Prop}
    (refused : heap.Spared (post (.errNoMem, none)))
    (done : forall (deque : Deque) (later : DequeMem α),
      Born heap.blocks later.blocks deque data elem al -> post (.ok, some deque) later) :
    Ends (fromData data elem al) heap post := by
  simp only [fromData, ends_bind]
  apply ends_initImpl isType real (Nat.le_refl _)
  · intro later same
    simp only [if_refused, ends_pure]
    exact refused later same
  · intro block later ring evolves
    simp only [if_granted, ends_bind, ends_demand_some]
    apply ends_fillRun ring rfl rfl (Nat.le_refl _)
    intro last tends
    simp only [ends_pure]
    exact done _ last (Born.of_tends evolves tends)

theorem ends_copyWith (holds : Holds heap.blocks self elems) (real : al.isSome = true)
    {post : Status × Option Deque -> DequeMem α -> Prop}
    (refused : heap.Spared (post (.errNoMem, none)))
    (done : forall (deque : Deque) (later : DequeMem α),
      Born heap.blocks later.blocks deque elems self.elem al -> post (.ok, some deque) later) :
    Ends (copyWith α self al) heap post := by
  rcases holds.ring with ⟨view, ring, shows_⟩
  simp only [copyWith, ends_bind, ends_assertDeque holds.asserts]
  apply ends_initImpl ring.elem real (Nat.le_refl _)
  · intro later same
    simp only [if_refused, ends_pure]
    exact refused later same
  · intro block later fresh evolves
    have still : Ring later.blocks self view := by
      apply ring.congr
      exact fun addr mine => evolves.keeps List.not_mem_nil (ring.live mine)
    simp only [if_granted, ends_bind, ends_demand_some,
      ends_copyOut still holds.load, shows_]
    apply ends_fillRun fresh rfl holds.len (Nat.le_refl _)
    intro last tends
    simp only [ends_pure]
    exact done _ last (Born.of_tends evolves tends)

theorem ends_deinit_inert {post : Deque -> DequeMem α -> Prop} :
    Ends (deinit α inert) heap post <-> post inert heap := by
  have none_ : inert.al = none := rfl
  have bare : inert.data = none := rfl
  simp only [deinit, if_pos none_, ends_bind, ends_require, bare, true_and, ends_pure]

theorem ends_deinit (holds : Holds heap.blocks self elems) {post : Deque -> DequeMem α -> Prop}
    (done : forall later : DequeMem α,
      Evolves heap.blocks later.blocks self.data.toList [] -> post inert later) :
    Ends (deinit α self) heap post := by
  rcases holds.ring with ⟨view, ring, _⟩
  have real : self.al ≠ none := Option.isSome_iff_ne_none.mp ring.real
  simp only [deinit, if_neg real, ends_bind, ends_assertDeque holds.asserts]
  apply ends_freeBlock ring
  intro later gone
  simp only [ends_pure]
  exact done later gone

end Building

/-- The contents of another deque over those of this one. -/
theorem ends_copyOver {other : Deque} (holds : Holds heap.blocks self elems)
    (source : Holds heap.blocks other rest) (sameElem : self.elem = other.elem)
    (apart : forall addr, addr ∈ other.data.toList -> addr ∉ self.data.toList)
    {post : Status × Deque -> DequeMem α -> Prop}
    (refused : heap.Spared (post (.errNoMem, self)))
    (done : forall (after : Deque) (later : DequeMem α),
      Tends heap.blocks later.blocks self after rest -> post (.ok, after) later) :
    Ends (copyOver α self other) heap post := by
  rcases source.ring with ⟨otherView, otherRing, shows_⟩
  rcases holds.ring with ⟨view, ring, _⟩
  have otherLoad := source.load
  have fits : self.elem.size * other.len < sizeRange := by
    rw [sameElem]
    exact Nat.lt_of_le_of_lt (Nat.mul_le_mul_left _ otherLoad) otherRing.fits
  -- the part behind the growth
  have fill : forall (roomy : Deque) (mid : DequeMem α) (next : List (Option α)),
      Turns heap.blocks mid.blocks self roomy next -> other.len ≤ roomy.cap ->
      Ends (do
        let vals ← copyOut (α := α) other
        fillRun roomy.data vals
        assertDeque { roomy with head := 0, len := other.len }
        return (Status.ok, { roomy with head := 0, len := other.len })) mid post := by
    intro roomy mid next turns room
    have still : Ring mid.blocks other otherView := by
      apply otherRing.congr
      exact fun addr mine => turns.evolves.keeps (apart addr mine) (otherRing.live mine)
    rcases turns.ring.rewound with ⟨rewound, back⟩
    have ready := turns.trans (back.withLen other.len)
    simp only [ends_bind, ends_copyOut still otherLoad, shows_]
    apply ends_fillRun ready.ring rfl source.len room
    intro later tends
    simp only [ends_assertDeque tends.holds.asserts, ends_pure]
    exact done _ later ⟨tends.holds, ready.evolves.trans tends.evolves, ready.elem, ready.al⟩
  simp only [copyOver]
  by_cases grow : other.len > self.cap
  · simp only [if_pos grow, ends_bind, blockLayout_eq fits]
    apply ends_alloc ring.real
    · intro later same
      simp only [ends_bind, ends_pure, if_refused]
      exact refused later same
    · intro _ ptr granted free same
      have notMine : ptr ∉ self.data.toList := fun mine => ring.live mine free
      have grant : Evolves heap.blocks granted.blocks [] [ptr] := by
        rw [same]
        exact Evolves.of_grant free fun other => by simp
      simp only [ends_bind]
      apply ends_adoptBlock _ notMine grant (by rw [same, Function.update_self])
        List.length_replicate (by omega) fits
      · intro later turns
        simp only [ends_pure, if_granted]
        exact fill _ later _ turns (Nat.le_refl _)
      · exact view
      · apply ring.congr
        exact fun addr mine => grant.keeps List.not_mem_nil (ring.live mine)
  · simp only [if_neg grow, ends_bind, ends_pure, if_granted]
    simpa only [ends_bind, ends_pure] using
      fill self heap view (Turns.refl ring) (Nat.le_of_not_lt grow)

end Deque
end TerseDsa
