import TerseDsa.Deque.Ring

namespace TerseDsa

open Foundation Run

/-!
# Moving elems over the ring

`move_elems` is a `memmove` over indices.  Whichever way it walks, an elem is
read before anything is written over it, so the elems moved are those that
were there at first.
-/

namespace Deque

variable {α : Type} {heap : DequeMem α} {self : Deque} {view : List (Option α)}
  {dst src count idx : Nat}

theorem ends_moveElem (ring : Ring heap.blocks self view) (different : dst ≠ src)
    (inside : dst < self.cap) {val : Option α} (found : view[src]? = some val)
    {post : Unit -> DequeMem α -> Prop}
    (holds : forall later : DequeMem α,
      Turns heap.blocks later.blocks self self (view.set dst val) -> post () later) :
    Ends (moveElem α self dst src) heap post := by
  simp only [moveElem, ends_bind, ends_require, ends_elemAt ring found]
  exact ⟨different, ends_setElemAt ring inside holds⟩

/-- The elems `count` from `src` on, written from `dst` on. -/
def shifted (view : List (Option α)) (dst src count : Nat) : List (Option α) :=
  overwriteAt view dst ((view.drop src).take count)

section Shifted

variable (dstFits : dst + count ≤ view.length) (srcFits : src + count ≤ view.length)

include srcFits

theorem shifted_taken : ((view.drop src).take count).length = count := by
  rw [List.length_take, List.length_drop]
  omega

include dstFits

theorem getElem?_shifted (place : Nat) :
    (shifted view dst src count)[place]? =
      if dst ≤ place ∧ place < dst + count then view[src + (place - dst)]? else view[place]? := by
  have taken := shifted_taken srcFits
  unfold shifted
  rw [getElem?_overwriteAt (by rw [taken]; exact dstFits), taken]
  split
  · rw [List.getElem?_take_of_lt (by omega), List.getElem?_drop]
  · rfl

end Shifted

theorem shifted_zero : shifted view dst src 0 = view := by
  unfold shifted
  rw [List.take_zero, overwriteAt_nil]

/-- Walking up: the next elem behind those moved. -/
theorem set_shifted_up (dstFits : dst + count < view.length) (srcFits : src + count < view.length) :
    (shifted view dst src count).set (dst + count) view[src + count] =
      shifted view dst src (count + 1) := by
  have taken := shifted_taken (Nat.le_of_lt srcFits)
  have more : (view.drop src).take (count + 1) =
      (view.drop src).take count ++ [view[src + count]] := by
    rw [List.take_succ_eq_append_getElem (by rw [List.length_drop]; omega), List.getElem_drop]
  have written : (overwriteAt view dst ((view.drop src).take count)).set
      (dst + ((view.drop src).take count).length) view[src + count] = _ :=
    set_overwriteAt_snoc (by rw [taken]; exact dstFits) view[src + count]
  rw [taken] at written
  unfold shifted
  rw [written, more]

/-- Walking down: the next elem before those moved. -/
theorem set_shifted_down (dstFits : dst + 1 + count ≤ view.length)
    (srcFits : src + 1 + count ≤ view.length) :
    (shifted view (dst + 1) (src + 1) count).set dst view[src] =
      shifted view dst src (count + 1) := by
  have taken := shifted_taken srcFits
  have more : (view.drop src).take (count + 1) = view[src] :: (view.drop (src + 1)).take count := by
    rw [List.drop_eq_getElem_cons (by omega), List.take_succ_cons]
  unfold shifted
  rw [set_overwriteAt_cons (by rw [taken]; exact dstFits), more]

theorem ends_moveElems (ring : Ring heap.blocks self view) (dstFits : dst + count ≤ self.cap)
    (srcFits : src + count ≤ self.cap) (apart : count = 0 ∨ dst ≠ src)
    {post : Unit -> DequeMem α -> Prop}
    (holds : forall later : DequeMem α,
      Turns heap.blocks later.blocks self self (shifted view dst src count) -> post () later) :
    Ends (moveElems α self dst src count) heap post := by
  have length := ring.length
  unfold moveElems
  by_cases down : dst < src
  · rw [if_pos down]
    apply ends_countUp (fun i _ h =>
      Turns heap.blocks h.blocks self self (shifted view dst src i)) (show 0 + count = count by omega)
    · intro i _ h _ below turns
      have found : (shifted view dst src i)[src + i]? = some view[src + i] := by
        rw [getElem?_shifted (by omega) (by omega), if_neg (by omega), List.getElem?_eq_getElem]
      apply ends_moveElem turns.ring (by omega) (by omega) found
      intro later more
      rw [set_shifted_up (by omega) (by omega)] at more
      exact turns.trans more
    · exact fun _ later turns => holds later turns
    · rw [shifted_zero]
      exact Turns.refl ring
  · rw [if_neg down]
    apply ends_countUp (fun done _ h => Turns heap.blocks h.blocks self self
      (shifted view (dst + (count - done)) (src + (count - done)) done))
      (show 0 + count = count by omega)
    · intro done _ h _ below turns
      have step : count - done = (count - (done + 1)) + 1 := by omega
      rw [step, ← Nat.add_assoc, ← Nat.add_assoc] at turns
      have found : (shifted view (dst + (count - (done + 1)) + 1) (src + (count - (done + 1)) + 1)
          done)[src + (count - (done + 1))]? = some view[src + (count - (done + 1))] := by
        rw [getElem?_shifted (by omega) (by omega), if_neg (by omega), List.getElem?_eq_getElem]
      have places : dst + (count - done) - 1 = dst + (count - (done + 1)) ∧
          src + (count - done) - 1 = src + (count - (done + 1)) := by omega
      simp only [places.1, places.2]
      apply ends_moveElem turns.ring (by omega) (by omega) found
      intro later more
      rw [set_shifted_down (by omega) (by omega)] at more
      exact turns.trans more
    · intro _ later turns
      rw [Nat.sub_self] at turns
      exact holds later turns
    · rw [shifted_zero]
      exact Turns.refl ring

end Deque

/-!
## Contents and growth

`Deque.Holds` ties a deque to the list of its elems: those are the first
`len_` of the ring, read from the head.  `Deque.Tends` is what an operation
does: the deque is held again, over the elems after, and only its own block
was touched.  Growing and shrinking move the elems to another block, or leave
everything as it was.
-/

namespace Deque

variable {α : Type} {heap : DequeMem α} {self after : Deque} {view : List (Option α)}
  {elems rest : List α} {newCap newLen : Nat}

/-- The elems of the deque, from the front. -/
structure Holds (blocks : Blocks AlTag (List (Option α))) (deque : Deque) (elems : List α) :
    Prop where
  ring : exists view, Ring blocks deque view ∧ view.take deque.len = elems.map some
  len : deque.len = elems.length
  load : deque.len ≤ deque.cap

/-- From one deque to another on the same allocator. -/
structure Tends (blocks later : Blocks AlTag (List (Option α))) (deque after : Deque)
    (elems : List α) : Prop where
  holds : Holds later after elems
  evolves : Evolves blocks later deque.data.toList after.data.toList
  elem : after.elem = deque.elem
  al : after.al = deque.al

namespace Tends

variable {blocks later last : Blocks AlTag (List (Option α))} {final : Deque}

theorem refl (holds : Holds blocks self elems) : Tends blocks blocks self self elems :=
  ⟨holds, Evolves.refl _ _, rfl, rfl⟩

theorem trans (first : Tends blocks later self after elems)
    (second : Tends later last after final rest) : Tends blocks last self final rest :=
  ⟨second.holds, first.evolves.trans second.evolves, second.elem.trans first.elem,
    second.al.trans first.al⟩

/-- A step on the ring, with the elems that its view shows. -/
theorem of_turns (turns : Turns blocks later self after view)
    (shows_ : view.take after.len = elems.map some) (load : after.len ≤ after.cap) :
    Tends blocks later self after elems := by
  refine ⟨⟨⟨view, turns.ring, shows_⟩, ?_, load⟩, turns.evolves, turns.elem, turns.al⟩
  have lengths := congrArg List.length shows_
  rw [List.length_take, turns.ring.length, List.length_map] at lengths
  omega

end Tends

namespace Holds

theorem asserts (holds : Holds heap.blocks self elems) : self.Asserts := by
  rcases holds.ring with ⟨view, ring, _⟩
  exact ring.asserts holds.load

theorem congr {other : Blocks AlTag (List (Option α))} (holds : Holds heap.blocks self elems)
    (agree : forall addr, addr ∈ self.data.toList -> other addr = heap.blocks addr) :
    Holds other self elems := by
  rcases holds.ring with ⟨view, ring, shows_⟩
  exact ⟨⟨view, ring.congr agree, shows_⟩, holds.len, holds.load⟩

theorem live (holds : Holds heap.blocks self elems) {addr : Addr}
    (mine : addr ∈ self.data.toList) : heap.blocks addr ≠ none := by
  rcases holds.ring with ⟨view, ring, _⟩
  exact ring.live mine

theorem of_bare {blocks : Blocks AlTag (List (Option α))} {deque : Deque}
    (real : deque.al.isSome = true) (elem : deque.elem.isType = true) (data : deque.data = none)
    (cap : deque.cap = 0) (len : deque.len = 0) (head : deque.head = 0) :
    Holds blocks deque ([] : List α) := by
  refine ⟨⟨[], ⟨real, elem, cap.symm, ?_, Or.inl ⟨cap, head⟩, ?_, ?_⟩, ?_⟩, len, ?_⟩
  · rw [cap, Nat.mul_zero]
    exact Nat.two_pow_pos 64
  · exact ⟨fun _ => cap, fun _ => data⟩
  · intro addr same
    rw [data] at same
    cases same
  · rw [len]
    rfl
  · rw [len]
    exact Nat.zero_le _

end Holds

/-! ## The block -/

theorem blockLayout_eq (fits : self.elem.size * newCap < sizeRange) :
    blockLayout self newCap = ⟨self.elem.size * newCap, self.elem.align⟩ := by
  unfold blockLayout
  rw [wrapMul_eq fits]

theorem ends_freeBlock (ring : Ring heap.blocks self view) {post : Unit -> DequeMem α -> Prop}
    (holds : forall later : DequeMem α,
      Evolves heap.blocks later.blocks self.data.toList [] -> post () later) :
    Ends (freeBlock α self) heap post := by
  unfold freeBlock
  rw [blockLayout_eq ring.fits]
  rcases Option.eq_none_or_eq_some self.data with none_ | ⟨addr, data⟩
  · rw [none_]
    rw [none_] at holds
    exact (ends_dealloc_none ring.real).mpr (holds heap (Evolves.refl _ _))
  · rcases ring.block addr data with ⟨slots, here, _⟩
    rw [data]
    rw [data] at holds
    have room : 0 < self.cap := by
      apply Nat.pos_of_ne_zero
      intro empty
      rw [ring.bare.mpr empty] at data
      cases data
    apply (ends_dealloc_some ring.real (Nat.mul_pos ring.elemSize room) here).mpr
    apply holds
    apply Evolves.of_release (List.mem_singleton_self addr)
    intro other
    simp only [List.mem_singleton, List.not_mem_nil, false_iff, not_and]
    exact fun different => different

/-- The ring of a block that was just granted. -/
theorem Ring.of_grant {blocks : Blocks AlTag (List (Option α))} (real : self.al.isSome = true)
    (elem : self.elem.isType = true) (fits : self.elem.size * newCap < sizeRange)
    (room : 0 < newCap) {ptr : Addr} {slots : List (Option α)} (length : slots.length = newCap)
    (here : blocks ptr = some ⟨(self.al, ⟨self.elem.size * newCap, self.elem.align⟩), slots⟩) :
    Ring blocks { self with data := some ptr, cap := newCap, head := 0 } slots := by
  refine ⟨real, elem, length, fits, Or.inr room, ?_, ?_⟩
  · constructor
    · exact fun impossible => by cases impossible
    · exact fun empty => absurd empty (Nat.ne_of_gt room)
  · intro addr same
    cases same
    exact ⟨slots, here, (List.rotate_zero slots).symm⟩

/-- The old block is given back, and the granted one is the ring now. -/
theorem ends_adoptBlock {before : Blocks AlTag (List (Option α))} {ptr : Addr}
    {slots : List (Option α)} (ring : Ring heap.blocks self view)
    (notMine : ptr ∉ self.data.toList) (made : Evolves before heap.blocks [] [ptr])
    (here : heap.blocks ptr =
      some ⟨(self.al, ⟨self.elem.size * newCap, self.elem.align⟩), slots⟩)
    (length : slots.length = newCap) (room : 0 < newCap)
    (fits : self.elem.size * newCap < sizeRange) {post : Deque -> DequeMem α -> Prop}
    (holds : forall later : DequeMem α,
      Turns before later.blocks self { self with data := some ptr, cap := newCap, head := 0 } slots ->
      post { self with data := some ptr, cap := newCap, head := 0 } later) :
    Ends (adoptBlock α self ptr newCap) heap post := by
  simp only [adoptBlock, ends_bind]
  apply ends_freeBlock ring
  intro later gone
  simp only [ends_pure]
  apply holds
  have stays : later.blocks ptr = heap.blocks ptr := by
    apply gone.keeps notMine
    rw [here]
    exact Option.some_ne_none _
  exact ⟨Ring.of_grant ring.real ring.elem fits room length (stays.trans here), made.replace gone,
    rfl, rfl⟩

/-- The contents move to a block of their own, or nothing happens. -/
theorem ends_relocate (holds : Holds heap.blocks self elems) (enough : self.len ≤ newCap)
    (room : 0 < newCap) (fits : self.elem.size * newCap < sizeRange)
    {post : Status × Deque -> DequeMem α -> Prop}
    (refused : heap.Spared (post (.errNoMem, self)))
    (moved : forall (after : Deque) (later : DequeMem α),
      Tends heap.blocks later.blocks self after elems -> after.cap = newCap ->
      after.len = self.len -> post (.ok, after) later) :
    Ends (relocate α self newCap) heap post := by
  rcases holds.ring with ⟨view, ring, shows_⟩
  simp only [relocate, ends_bind, ends_require, ge_iff_le, enough, gt_iff_lt, room, true_and,
    blockLayout_eq fits]
  apply ends_alloc ring.real
  · intro later same
    simp only [ends_pure]
    exact refused later same
  · intro _ ptr granted free same
    have here : granted.blocks ptr = some ⟨(self.al, ⟨self.elem.size * newCap, self.elem.align⟩),
        List.replicate newCap none⟩ := by
      rw [same, Function.update_self]
    have notMine : ptr ∉ self.data.toList := fun mine => ring.live mine free
    have elsewhere : forall (blocks : Blocks AlTag (List (Option α))) slots,
        blocks = Function.update heap.blocks ptr slots ->
        Ring blocks self view := by
      intro blocks slots updated
      apply ring.congr
      intro addr mine
      rw [updated, Function.update_of_ne]
      rintro rfl
      exact notMine mine
    have contents : (view.take self.len).length = self.len := by
      rw [List.length_take, ring.length]
      exact Nat.min_eq_left holds.load
    have fits' : 0 + (view.take self.len).length ≤
        (List.replicate newCap (none : Option α)).length := by
      rw [contents, List.length_replicate]
      omega
    simp only [ends_bind, ends_copyOut (elsewhere _ _ same) holds.load,
      ends_writeRun (rfl : some ptr = some ptr) here fits']
    have grant : Evolves heap.blocks granted.blocks [] [ptr] := by
      rw [same]
      exact Evolves.of_grant free fun other => by simp
    apply ends_adoptBlock (elsewhere _ _ (by rw [Heap.put_blocks, same, Function.update_idem])) notMine
      (grant.trans (Evolves.of_write (List.mem_singleton_self ptr)))
      (Function.update_self _ _ _) _ room fits
    · intro later turns
      have tends : Tends heap.blocks later.blocks self
          { self with data := some ptr, cap := newCap, head := 0 } elems := by
        apply Tends.of_turns turns _ enough
        unfold overwriteAt
        rw [List.take_zero, List.nil_append]
        change List.take self.len _ = _
        rw [List.take_append_of_le_length (by rw [contents]), List.take_take, Nat.min_self, shows_]
      simp only [ends_assertDeque tends.holds.asserts, ends_pure]
      exact moved _ later tends rfl rfl
    · rw [overwriteAt_length fits', List.length_replicate]

theorem ends_reserve (holds : Holds heap.blocks self elems)
    {post : Status × Deque -> DequeMem α -> Prop}
    (refused : heap.Spared (post (.errNoMem, self)))
    (done : forall (after : Deque) (later : DequeMem α),
      Tends heap.blocks later.blocks self after elems -> newCap ≤ after.cap ->
      after.len = self.len -> post (.ok, after) later) :
    Ends (reserve α self newCap) heap post := by
  simp only [reserve, ends_bind, ends_assertDeque holds.asserts]
  by_cases enough : newCap ≤ self.cap
  · rw [if_pos enough, ends_pure]
    exact done self heap (Tends.refl holds) enough rfl
  · rw [if_neg enough]
    have load := holds.load
    rcases self.elem.ckdArray_cases newCap with ⟨overflow, _⟩ | ⟨layout, fits⟩
    · simp only [overflow, ends_pure]
      exact refused heap rfl
    · simp only [layout]
      apply ends_relocate holds (by omega) (by omega) fits refused
      intro after later tends cap len
      exact done after later tends (Nat.le_of_eq cap.symm) len

theorem ends_reserveFor (holds : Holds heap.blocks self elems) (more : self.cap < newLen)
    {post : Status × Deque -> DequeMem α -> Prop}
    (refused : heap.Spared (post (.errNoMem, self)))
    (done : forall (after : Deque) (later : DequeMem α),
      Tends heap.blocks later.blocks self after elems -> newLen ≤ after.cap ->
      after.len = self.len -> post (.ok, after) later) :
    Ends (reserveFor α self newLen) heap post := by
  simp only [reserveFor, ends_bind, ends_require, gt_iff_lt, more, true_and]
  by_cases eager : newLen < nextCap self
  · simp only [if_pos eager, ends_bind]
    apply ends_reserve holds
    · intro later same
      simp only [reduceCtorEq, if_false]
      apply ends_reserve (same ▸ holds)
      · exact fun last equal => refused last (equal.trans same)
      · intro after last tends enough len
        rw [same] at tends
        exact done after last tends enough len
    · intro after later tends enough len
      simp only [if_true, ends_pure]
      exact done after later tends (by omega) len
  · rw [if_neg eager]
    exact ends_reserve holds refused done

theorem ends_reserveOne (holds : Holds heap.blocks self elems)
    {post : Status × Deque -> DequeMem α -> Prop}
    (refused : heap.Spared (post (.errNoMem, self)))
    (done : forall (after : Deque) (later : DequeMem α),
      Tends heap.blocks later.blocks self after elems -> after.len < after.cap ->
      after.len = self.len -> post (.ok, after) later) :
    Ends (reserveOne α self) heap post := by
  have load := holds.load
  unfold reserveOne
  by_cases room : self.len < self.cap
  · rw [if_pos room, ends_pure]
    exact done self heap (Tends.refl holds) room rfl
  · rw [if_neg room]
    by_cases full : self.cap = sizeMax
    · rw [if_pos full, ends_pure]
      exact refused heap rfl
    · rw [if_neg full]
      apply ends_reserveFor holds (Nat.lt_succ_self _) refused
      intro after later tends enough len
      exact done after later tends (by omega) len

end Deque
end TerseDsa
