import TerseDsa.Deque.Model
import TerseDsa.Foundation.Rings

namespace TerseDsa

open Foundation Run

/-!
# The ring a deque stands for

`Deque.Ring` says that memory holds the ring of a deque: read from `head_`
once around, its slots are `view`.  `Deque.Turns` is a step on the ring: the
new ring is held, and nothing but the deque's own block was touched.  Reads
and writes by index, and the runs of slots that are copied in one go, are
reads and writes of the view.
-/

namespace Deque

variable {α S : Type} {heap : DequeMem α} {self after : Deque} {view next : List (Option α)}
  {idx count : Nat}

/-- The tag of a deque's block. -/
def tag (self : Deque) : AlTag := (self.al, ⟨self.elem.size * self.cap, self.elem.align⟩)

/-- Memory holds the ring. -/
structure Ring (blocks : Blocks AlTag (List (Option α))) (deque : Deque)
    (view : List (Option α)) : Prop where
  real : deque.al.isSome = true
  elem : deque.elem.isType = true
  length : view.length = deque.cap
  fits : deque.elem.size * deque.cap < sizeRange
  start : deque.cap = 0 ∧ deque.head = 0 ∨ deque.head < deque.cap
  bare : deque.data = none <-> deque.cap = 0
  block : forall addr, deque.data = some addr -> exists slots : List (Option α),
    blocks addr = some ⟨tag deque, slots⟩ ∧ view = slots.rotate deque.head

/-- From one ring to another, on one allocator and of one layout. -/
structure Turns (blocks later : Blocks AlTag (List (Option α))) (deque after : Deque)
    (next : List (Option α)) : Prop where
  ring : Ring later after next
  evolves : Evolves blocks later deque.data.toList after.data.toList
  elem : after.elem = deque.elem
  al : after.al = deque.al

namespace Turns

variable {blocks later last : Blocks AlTag (List (Option α))} {final : Deque}
  {latest : List (Option α)}

theorem refl (ring : Ring blocks self view) : Turns blocks blocks self self view :=
  ⟨ring, Evolves.refl _ _, rfl, rfl⟩

theorem trans (first : Turns blocks later self after next)
    (second : Turns later last after final latest) : Turns blocks last self final latest :=
  ⟨second.ring, first.evolves.trans second.evolves, second.elem.trans first.elem,
    second.al.trans first.al⟩

end Turns

theorem Ring.elemSize (ring : Ring heap.blocks self view) : 0 < self.elem.size := Layout.size_pos ring.elem

theorem Ring.cap_lt (ring : Ring heap.blocks self view) : self.cap < sizeRange :=
  Nat.lt_of_le_of_lt (Nat.le_mul_of_pos_left _ ring.elemSize) ring.fits

theorem Turns.withLen {blocks later : Blocks AlTag (List (Option α))}
    (turns : Turns blocks later self after next) (len : Nat) :
    Turns blocks later self { after with len } next :=
  ⟨⟨turns.ring.real, turns.ring.elem, turns.ring.length, turns.ring.fits, turns.ring.start,
    turns.ring.bare, turns.ring.block⟩, turns.evolves, turns.elem, turns.al⟩

/-- A deque that has room has a block, and starts inside it. -/
theorem Ring.room (ring : Ring heap.blocks self view) (some_ : 0 < self.cap) :
    exists addr slots, self.data = some addr ∧ heap.blocks addr = some ⟨tag self, slots⟩ ∧
      view = slots.rotate self.head ∧ slots.length = self.cap ∧ self.head < self.cap := by
  rcases Option.eq_none_or_eq_some self.data with none_ | ⟨addr, data⟩
  · have empty := ring.bare.mp none_
    omega
  · rcases ring.block addr data with ⟨slots, here, rotated⟩
    refine ⟨addr, slots, data, here, rotated, ?_, ?_⟩
    · rw [← ring.length, rotated, List.length_rotate]
    · rcases ring.start with ⟨empty, _⟩ | inside
      · omega
      · exact inside

theorem Ring.congr {other : Blocks AlTag (List (Option α))} (ring : Ring heap.blocks self view)
    (agree : forall addr, addr ∈ self.data.toList -> other addr = heap.blocks addr) :
    Ring other self view := by
  refine ⟨ring.real, ring.elem, ring.length, ring.fits, ring.start, ring.bare, ?_⟩
  intro addr data
  rcases ring.block addr data with ⟨slots, here, rotated⟩
  refine ⟨slots, ?_, rotated⟩
  rw [agree addr (by rw [data]; exact List.mem_singleton_self addr)]
  exact here

theorem Ring.live (ring : Ring heap.blocks self view) {addr : Addr}
    (mine : addr ∈ self.data.toList) : heap.blocks addr ≠ none := by
  rcases ring.block addr (Option.mem_toList.mp mine) with ⟨slots, here, _⟩
  rw [here]
  exact Option.some_ne_none _

theorem Ring.asserts (ring : Ring heap.blocks self view) (len : self.len ≤ self.cap) :
    self.Asserts := by
  have bare := ring.bare
  refine ⟨ring.elem, len, ?_, ?_, ?_, ?_, ring.real⟩
  · by_cases empty : self.cap = 0
    · exact Or.inl empty
    · exact Or.inr (Option.isSome_iff_ne_none.mpr fun none_ => empty (bare.mp none_))
  · by_cases empty : self.cap = 0
    · exact Or.inl (bare.mpr empty)
    · exact Or.inr (Nat.pos_of_ne_zero empty)
  · exact ring.start.imp And.left id
  · exact ring.start.symm.imp Nat.zero_lt_of_lt And.right

theorem ends_assertDeque (holds : self.Asserts) {s : S} {post : Unit -> S -> Prop} :
    Ends (assertDeque self) s post <-> post () s := by
  unfold assertDeque
  rw [ends_require]
  exact ⟨And.right, fun after => ⟨holds, after⟩⟩

/-! ## Slots -/

theorem slotOf_eq (bound : self.cap < sizeRange) (start : self.head < self.cap)
    (inside : idx < self.cap) : slotOf self idx = lap self.cap self.head idx := by
  unfold slotOf lap
  rw [wrapSub_eq bound (Nat.le_of_lt start)]
  dsimp only
  by_cases short : idx < self.cap - self.head
  · rw [if_pos short, if_pos short, wrapAdd_eq (by omega)]
  · rw [if_neg short, if_neg short, wrapSub_eq (by omega) (by omega)]

/-- The slot of the elem that is found in a slot. -/
theorem lap_idxOf (bound : self.cap < sizeRange) (start : self.head < self.cap) {slot : Nat}
    (inside : slot < self.cap) : lap self.cap self.head (idxOf self slot) = slot := by
  unfold lap idxOf
  by_cases behind : slot ≥ self.head
  · rw [if_pos behind, wrapSub_eq (by omega) behind]
    split <;> omega
  · rw [if_neg behind, wrapSub_wrapAdd (by omega) (by omega)]
    split <;> omega

theorem idxOf_lt (bound : self.cap < sizeRange) (start : self.head < self.cap) {slot : Nat}
    (inside : slot < self.cap) : idxOf self slot < self.cap := by
  unfold idxOf
  split
  · rw [wrapSub_eq (by omega) (by assumption)]
    omega
  · rw [wrapSub_wrapAdd (by omega) (by omega)]
    omega

/-- The elem that is found in the slot of an elem. -/
theorem idxOf_slotOf (bound : self.cap < sizeRange) (start : self.head < self.cap)
    (inside : idx < self.cap) : idxOf self (slotOf self idx) = idx := by
  have slotIn : slotOf self idx < self.cap := by
    rw [slotOf_eq bound start inside]
    exact lap_lt start inside
  have back := lap_idxOf bound start slotIn
  rw [slotOf_eq bound start inside] at slotIn back ⊢
  exact lap_inj start (idxOf_lt bound start slotIn) inside back

theorem ends_slotFwd (bound : self.cap < sizeRange) {slot : Nat} (inside : slot < self.cap)
    (within : count ≤ self.cap) {s : S} {post : Nat -> S -> Prop} :
    Ends (slotFwd self slot count) s post <-> post ((slot + count) % self.cap) s := by
  rw [← fwd_eq_mod inside within]
  simp only [slotFwd, ends_bind, ends_require, inside, within, true_and, ends_pure,
    wrapSub_eq bound (Nat.le_of_lt inside)]
  split
  · rw [wrapAdd_eq (by omega)]
  · rw [wrapSub_eq (by omega) (by omega)]

theorem ends_slotBack (bound : self.cap < sizeRange) {slot : Nat} (inside : slot < self.cap)
    (within : count ≤ self.cap) {s : S} {post : Nat -> S -> Prop} :
    Ends (slotBack self slot count) s post <->
      post ((slot + (self.cap - count)) % self.cap) s := by
  rw [← back_eq_mod inside within]
  simp only [slotBack, ends_bind, ends_require, inside, within, true_and, ends_pure]
  split
  · rw [wrapSub_eq (by omega) (by omega)]
  · rw [wrapSub_wrapAdd (by omega) (by omega)]

/-- The way back round the ring, as a remainder of the difference. -/
theorem back_eq_emod {slot : Nat} (within : count ≤ self.cap) :
    (((slot + (self.cap - count)) % self.cap : Nat) : Int) = ((slot : Int) - count) % (self.cap : Int) := by
  have sum : ((slot + (self.cap - count) : Nat) : Int) = (slot : Int) - count + self.cap := by omega
  rw [Int.natCast_emod, sum, Int.add_emod_right]

/-- Whatever the capacity, the slots that `size_t` arithmetic gives are those of the ring: going on and
going back are remainders, going back undoes going on, and every slot has the one index that leads to it. -/
theorem slots_are_remainders (bound : self.cap < sizeRange) (s : S) :
    (forall slot count, slot < self.cap -> count ≤ self.cap ->
      (Ends (slotFwd self slot count) s fun result later =>
        later = s ∧ result = (slot + count) % self.cap) ∧
      (Ends (slotBack self slot count) s fun result later =>
        later = s ∧ (result : Int) = ((slot : Int) - count) % (self.cap : Int)) ∧
      Ends (do
        let ahead ← slotFwd self slot count
        slotBack self ahead count) s fun result later => later = s ∧ result = slot) ∧
    (self.head < self.cap ->
      (forall idx, idx < self.cap -> slotOf self idx = (self.head + idx) % self.cap) ∧
      forall slot, slot < self.cap -> idxOf self slot < self.cap ∧ slotOf self (idxOf self slot) = slot ∧
        forall idx, idx < self.cap -> slotOf self idx = slot -> idx = idxOf self slot) := by
  constructor
  · intro slot count inside within
    refine ⟨(ends_slotFwd bound inside within).mpr ⟨rfl, rfl⟩,
      (ends_slotBack bound inside within).mpr ⟨rfl, back_eq_emod within⟩, ?_⟩
    rw [ends_bind, ends_slotFwd bound inside within,
      ends_slotBack bound (Nat.mod_lt _ (Nat.zero_lt_of_lt inside)) within]
    refine ⟨rfl, ?_⟩
    rw [Nat.mod_add_mod, Nat.add_assoc, Nat.add_sub_cancel' within, Nat.add_mod_right, Nat.mod_eq_of_lt inside]
  · intro start
    refine ⟨fun idx inside => ?_, fun slot inside => ⟨idxOf_lt bound start inside, ?_, fun idx within same => ?_⟩⟩
    · rw [slotOf_eq bound start inside, lap_eq_mod start inside, Nat.add_comm]
    · rw [slotOf_eq bound start (idxOf_lt bound start inside), lap_idxOf bound start inside]
    · rw [← same, idxOf_slotOf bound start within]

/-- In the largest ring the sum that is taken off again wraps around. -/
theorem slots_are_remainders_largest :
    Ends (slotBack ⟨none, 0, 2 ^ 64 - 1, 2 ^ 64 - 2, ⟨1, 1⟩, none⟩ (2 ^ 64 - 3) (2 ^ 64 - 1)) () fun result later =>
      later = () ∧ result = 2 ^ 64 - 3 := by
  have bound : (⟨none, 0, 2 ^ 64 - 1, 2 ^ 64 - 2, ⟨1, 1⟩, none⟩ : Deque).cap < sizeRange := by decide
  have remainders := (slots_are_remainders bound ()).1 (2 ^ 64 - 3) (2 ^ 64 - 1) (by decide) (by decide)
  exact remainders.2.1.mono fun result later same => ⟨same.1, Int.ofNat.inj (same.2.trans (by decide))⟩

theorem ends_runFrom (bound : self.cap < sizeRange) {slot : Nat} (inside : slot ≤ self.cap) {s : S}
    {post : Nat -> S -> Prop} :
    Ends (runFrom self slot count) s post <-> post (runLength self.cap slot count) s := by
  simp only [runFrom, ends_bind, ends_require, inside, true_and, ends_pure,
    wrapSub_eq bound inside]
  rfl

/-! ## Reading and writing by index -/

theorem ends_readSlot {slots : List (Option α)} {data : Option Addr} {addr : Addr} {tag : AlTag}
    (at_ : data = some addr) (here : heap.blocks addr = some ⟨tag, slots⟩) {slot : Nat}
    {val : Option α} (found : slots[slot]? = some val) {post : Option α -> DequeMem α -> Prop} :
    Ends (readSlot data slot) heap post <-> post val heap := by
  subst at_
  simp only [readSlot, ends_bind, ends_demand_some, Heap.ends_read here, found]

theorem ends_elemAt (ring : Ring heap.blocks self view) {val : Option α}
    (found : view[idx]? = some val) {post : Option α -> DequeMem α -> Prop} :
    Ends (elemAt self idx) heap post <-> post val heap := by
  have inside : idx < self.cap := by
    rw [← ring.length]
    exact (List.getElem?_eq_some_iff.mp found).1
  rcases ring.room (Nat.zero_lt_of_lt inside) with ⟨addr, slots, data, here, rotated, length, start⟩
  rw [rotated, getElem?_rotate_lap (by omega) (by omega), length] at found
  simp only [elemAt, ends_bind, ends_require, inside, true_and,
    slotOf_eq ring.cap_lt start inside]
  exact ends_readSlot data here found

theorem Ring.write {blocks : Blocks AlTag (List (Option α))} (ring : Ring blocks self view)
    {addr : Addr} (data : self.data = some addr) {written : List (Option α)}
    (length : written.length = self.cap) :
    Turns blocks (Function.update blocks addr (some ⟨tag self, written⟩)) self self
      (written.rotate self.head) := by
  refine ⟨⟨ring.real, ring.elem, ?_, ring.fits, ring.start, ring.bare, ?_⟩, ?_, rfl, rfl⟩
  · rw [List.length_rotate]
    exact length
  · intro other same
    rw [data] at same
    cases same
    exact ⟨written, Function.update_self _ _ _, rfl⟩
  · rw [data]
    exact Evolves.of_write (List.mem_singleton_self addr)

theorem ends_writeSlot {addr : Addr} {slots : List (Option α)} (ring : Ring heap.blocks self view)
    (data : self.data = some addr) (here : heap.blocks addr = some ⟨tag self, slots⟩)
    (length : slots.length = self.cap) {slot : Nat} (inside : slot < self.cap) {val : Option α}
    {post : Unit -> DequeMem α -> Prop}
    (holds : forall later : DequeMem α,
      Turns heap.blocks later.blocks self self ((slots.set slot val).rotate self.head) ->
      post () later) :
    Ends (writeSlot self.data slot val) heap post := by
  rw [data]
  simp only [writeSlot, ends_bind, ends_demand_some, Heap.ends_read here, ends_require,
    length, inside, true_and, Heap.ends_write here]
  apply holds
  exact ring.write data (by rw [List.length_set]; exact length)

theorem ends_setElemAt (ring : Ring heap.blocks self view) (inside : idx < self.cap)
    {val : Option α} {post : Unit -> DequeMem α -> Prop}
    (holds : forall later : DequeMem α,
      Turns heap.blocks later.blocks self self (view.set idx val) -> post () later) :
    Ends (setElemAt self idx val) heap post := by
  rcases ring.room (Nat.zero_lt_of_lt inside) with ⟨addr, slots, data, here, rotated, length, start⟩
  simp only [setElemAt, ends_bind, ends_require, inside, true_and,
    slotOf_eq ring.cap_lt start inside]
  apply ends_writeSlot ring data here length (lap_lt start inside)
  intro later turns
  apply holds
  rw [rotated]
  rw [← length] at turns
  rw [rotate_set (by omega) (by omega)] at turns
  exact turns

/-! ## Moving the head -/

/-- The head moves `count` slots on. -/
theorem Ring.fwd (ring : Ring heap.blocks self view) (some_ : 0 < self.cap) (count : Nat) :
    Turns heap.blocks heap.blocks self { self with head := (self.head + count) % self.cap }
      (view.rotate count) := by
  refine ⟨⟨ring.real, ring.elem, ?_, ring.fits, ?_, ring.bare, ?_⟩, Evolves.refl _ _, rfl, rfl⟩
  · rw [List.length_rotate]
    exact ring.length
  · exact Or.inr (Nat.mod_lt _ some_)
  · intro addr data
    rcases ring.block addr data with ⟨slots, here, rotated⟩
    refine ⟨slots, here, ?_⟩
    have length : slots.length = self.cap := by
      rw [← ring.length, rotated, List.length_rotate]
    rw [rotated, ← rotate_fwd, length]

/-! ## Runs of slots -/

theorem ends_readRun {slots : List (Option α)} {data : Option Addr} {addr : Addr} {tag : AlTag}
    (at_ : data = some addr) (here : heap.blocks addr = some ⟨tag, slots⟩) {slot : Nat}
    (fits : slot + count ≤ slots.length) {post : List (Option α) -> DequeMem α -> Prop} :
    Ends (readRun data slot count) heap post <-> post ((slots.drop slot).take count) heap := by
  subst at_
  simp only [readRun, ends_bind, ends_demand_some, Heap.ends_read here, ends_require,
    fits, true_and, ends_pure]

theorem ends_writeRun {slots : List (Option α)} {data : Option Addr} {addr : Addr} {tag : AlTag}
    (at_ : data = some addr) (here : heap.blocks addr = some ⟨tag, slots⟩) {slot : Nat}
    {vals : List (Option α)} (fits : slot + vals.length ≤ slots.length)
    {post : Unit -> DequeMem α -> Prop} :
    Ends (writeRun data slot vals) heap post <->
      post () (heap.put addr (some ⟨tag, overwriteAt slots slot vals⟩)) := by
  subst at_
  simp only [writeRun, ends_bind, ends_demand_some, Heap.ends_read here, ends_require,
    fits, true_and, Heap.ends_write here]
  rfl

theorem ends_copyOut (ring : Ring heap.blocks self view) (len : self.len ≤ self.cap)
    {post : List (Option α) -> DequeMem α -> Prop} :
    Ends (copyOut self) heap post <-> post (view.take self.len) heap := by
  unfold copyOut
  by_cases none_ : self.len = 0
  · rw [if_pos none_, ends_pure, none_, List.take_zero]
  · rcases ring.room (by omega) with ⟨addr, slots, data, here, rotated, length, start⟩
    have fits := add_runLength_le (Nat.le_of_lt start) self.len
    simp only [if_neg none_, ends_bind, firstRun,
      ends_runFrom ring.cap_lt (Nat.le_of_lt start),
      ends_readRun data here (show self.head + runLength self.cap self.head self.len ≤ slots.length
        by omega)]
    rw [rotated, take_rotate (by omega) (by omega), length]
    by_cases straddles : runLength self.cap self.head self.len < self.len
    · simp only [if_pos straddles, ends_bind,
        ends_readRun data here (show 0 + (self.len - runLength self.cap self.head self.len) ≤
          slots.length by omega), ends_pure, List.drop_zero]
    · rw [if_neg straddles, ends_pure, Nat.sub_eq_zero_of_le (Nat.le_of_not_lt straddles),
        List.take_zero, List.append_nil]

/-- `copy_range_in` writes over the elems from `idx` on. -/
theorem ends_copyRangeIn (ring : Ring heap.blocks self view) (len : self.len ≤ self.cap)
    {src : List (Option α)} (fits : idx + src.length ≤ self.len)
    {post : Unit -> DequeMem α -> Prop}
    (holds : forall later : DequeMem α,
      Turns heap.blocks later.blocks self self (overwriteAt view idx src) -> post () later) :
    Ends (copyRangeIn self idx src) heap post := by
  simp only [copyRangeIn, ends_bind, ends_require, fits, true_and]
  by_cases none_ : src.length = 0
  · rw [if_pos none_, ends_pure]
    apply holds
    rw [List.length_eq_zero_iff.mp none_, overwriteAt_nil]
    exact Turns.refl ring
  · have inside : idx < self.cap := by omega
    rcases ring.room (by omega) with ⟨addr, slots, data, here, rotated, length, start⟩
    have slotIn := lap_lt start inside
    have short := runLength_le self.cap (lap self.cap self.head idx) src.length
    have room := add_runLength_le (Nat.le_of_lt slotIn) src.length
    have taken : (src.take (runLength self.cap (lap self.cap self.head idx) src.length)).length =
        runLength self.cap (lap self.cap self.head idx) src.length := by
      rw [List.length_take]
      omega
    have firstFits : lap self.cap self.head idx + (src.take (runLength self.cap
        (lap self.cap self.head idx) src.length)).length ≤ slots.length := by omega
    have firstLength := overwriteAt_length firstFits
    have secondFits : 0 + (src.drop (runLength self.cap (lap self.cap self.head idx)
        src.length)).length ≤ (overwriteAt slots (lap self.cap self.head idx)
        (src.take (runLength self.cap (lap self.cap self.head idx) src.length))).length := by
      rw [firstLength, List.length_drop]
      omega
    have turns := ring.write data ((overwriteAt_length secondFits).trans
      (firstLength.trans length))
    rw [rotated, ← rotate_overwriteAt (by omega) (by omega) (by omega) rfl rfl] at holds
    rw [length] at holds
    simp only [if_neg none_, ends_bind, ends_require, inside, true_and,
      slotOf_eq ring.cap_lt start inside, ends_runFrom ring.cap_lt (Nat.le_of_lt slotIn),
      ends_writeRun data here firstFits]
    by_cases straddles : runLength self.cap (lap self.cap self.head idx) src.length < src.length
    · simp only [if_pos straddles]
      rw [ends_writeRun data (by rw [Heap.put_blocks, Function.update_self]) secondFits]
      apply holds
      simp only [Heap.put_blocks, Function.update_idem]
      exact turns
    · simp only [if_neg straddles, ends_pure]
      apply holds
      rw [List.drop_of_length_le (Nat.le_of_not_lt straddles), overwriteAt_nil] at turns ⊢
      exact turns

end Deque
end TerseDsa
