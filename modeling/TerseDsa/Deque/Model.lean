import TerseDsa.Alloc.Wrappers
import TerseDsa.Core.Layout

namespace TerseDsa

open Foundation

/-!
# `ds/deque`

A ring of slots in one block.  A slot that was never written holds nothing,
and reading an elem out of one is an error.  The operations take the struct
and hand it back, as the C functions update `self` in place.

Slot arithmetic is that of `size_t`.  An index that is checked against `cap_`
at once is computed without it: a sum that overflowed would not pass.
-/

/-- `tda_Deque`. -/
structure Deque where
  data : Option Addr
  len : Nat
  cap : Nat
  head : Nat
  elem : Layout
  al : Al

abbrev DequeMem (α : Type) := AlHeap (List (Option α))

/-- A `tda_Span` into the block of a deque. -/
structure DequeSpan where
  data : Option Addr
  slot : Nat
  len : Nat
  elem : Layout

namespace Deque

variable {α C S : Type}

def growthBase : Nat := 1
def growthFactor : Nat := 2

/-- `= {}`: the state after `deinit`. -/
def inert : Deque := ⟨none, 0, 0, 0, ⟨0, 0⟩, none⟩

/-- `ASSERT_DEQUE`. -/
def Asserts (self : Deque) : Prop :=
  self.elem.isType = true ∧ self.len ≤ self.cap ∧
    (self.cap = 0 ∨ self.data.isSome = true) ∧ (self.data = none ∨ 0 < self.cap) ∧
    (self.cap = 0 ∨ self.head < self.cap) ∧ (0 < self.cap ∨ self.head = 0) ∧
    self.al.isSome = true

instance (self : Deque) : Decidable self.Asserts := by
  unfold Asserts
  infer_instance

def assertDeque (self : Deque) : Run S Unit := Run.require self.Asserts

/-- `EXPECT_SAME_DEQUE`. -/
def expectSame (a b : Deque) : Run S Unit := Run.require (a.elem = b.elem)

/-! ## Slots -/

/-- `tda_deque_slot_of_`: the slot of the elem `idx` places past the front. -/
def slotOf (self : Deque) (idx : Nat) : Nat :=
  let room := wrapSub self.cap self.head
  if idx < room then wrapAdd self.head idx else wrapSub idx room

/-- `slot_fwd`. -/
def slotFwd (self : Deque) (slot count : Nat) : Run S Nat := do
  Run.require (slot < self.cap)
  Run.require (count ≤ self.cap)
  let room := wrapSub self.cap slot
  return if count < room then wrapAdd slot count else wrapSub count room

/-- `slot_back`. -/
def slotBack (self : Deque) (slot count : Nat) : Run S Nat := do
  Run.require (slot < self.cap)
  Run.require (count ≤ self.cap)
  return if slot ≥ count then wrapSub slot count else wrapSub (wrapAdd slot self.cap) count

/-- The `size_t` that `alias_idx` makes of a slot. -/
def idxOf (self : Deque) (slot : Nat) : Nat :=
  if slot ≥ self.head then wrapSub slot self.head
  else wrapSub (wrapAdd slot self.cap) self.head

/-- `run_from`. -/
def runFrom (self : Deque) (slot count : Nat) : Run S Nat := do
  Run.require (slot ≤ self.cap)
  let toEnd := wrapSub self.cap slot
  return if toEnd < count then toEnd else count

/-- `first_run`. -/
def firstRun (self : Deque) : Run S Nat := runFrom self self.head self.len

/-! ## Access to the block -/

/-- Read `count` slots from `slot` on. -/
def readRun (data : Option Addr) (slot count : Nat) : Run (DequeMem α) (List (Option α)) := do
  let slots ← Heap.read (← Run.demand data)
  Run.require (slot + count ≤ slots.length)
  return (slots.drop slot).take count

/-- Write slots from `slot` on. -/
def writeRun (data : Option Addr) (slot : Nat) (vals : List (Option α)) :
    Run (DequeMem α) Unit := do
  let addr ← Run.demand data
  let slots ← Heap.read addr
  Run.require (slot + vals.length ≤ slots.length)
  Heap.write addr (slots.take slot ++ vals ++ slots.drop (slot + vals.length))

/-- The `memcpy` to the start of a block that is left out when nothing is copied. -/
def fillRun (data : Option Addr) (vals : List (Option α)) : Run (DequeMem α) Unit :=
  if 0 < vals.length then writeRun data 0 vals else return ()

def readSlot (data : Option Addr) (slot : Nat) : Run (DequeMem α) (Option α) := do
  let slots ← Heap.read (← Run.demand data)
  Run.demand slots[slot]?

def writeSlot (data : Option Addr) (slot : Nat) (val : Option α) : Run (DequeMem α) Unit := do
  let addr ← Run.demand data
  let slots ← Heap.read addr
  Run.require (slot < slots.length)
  Heap.write addr (slots.set slot val)

/-- `*elem_at(self, idx)`. -/
def elemAt (self : Deque) (idx : Nat) : Run (DequeMem α) (Option α) := do
  Run.require (idx < self.cap)
  readSlot self.data (slotOf self idx)

/-- `*elem_at_mut(self, idx) = val`. -/
def setElemAt (self : Deque) (idx : Nat) (val : Option α) : Run (DequeMem α) Unit := do
  Run.require (idx < self.cap)
  writeSlot self.data (slotOf self idx) val

/-- `move_elem`: a `memcpy`, so between two distinct slots. -/
def moveElem (α : Type) (self : Deque) (dst src : Nat) : Run (DequeMem α) Unit := do
  Run.require (dst ≠ src)
  let val ← elemAt self src
  setElemAt self dst val

/-- `move_elems`: moving down walks up, moving up walks down. -/
def moveElems (α : Type) (self : Deque) (dst src count : Nat) : Run (DequeMem α) Unit :=
  if dst < src then
    Run.countUp (fun i _ => moveElem α self (dst + i) (src + i)) count 0 ()
  else
    Run.countUp (fun done _ =>
      let i := count - done
      moveElem α self (dst + i - 1) (src + i - 1)) count 0 ()

/-- `copy_out`: what it writes to `dst`. -/
def copyOut (self : Deque) : Run (DequeMem α) (List (Option α)) := do
  if self.len = 0 then
    return []
  let run ← firstRun self
  let front ← readRun self.data self.head run
  if run < self.len then
    let back ← readRun self.data 0 (self.len - run)
    return front ++ back
  return front

/-- `copy_range_in`: the elems may straddle the seam. -/
def copyRangeIn (self : Deque) (idx : Nat) (src : List (Option α)) : Run (DequeMem α) Unit := do
  Run.require (idx + src.length ≤ self.len)
  if src.length = 0 then
    return ()
  Run.require (idx < self.cap)
  let slot := slotOf self idx
  let run ← runFrom self slot src.length
  writeRun self.data slot (src.take run)
  if run < src.length then
    writeRun self.data 0 (src.drop run)

/-- `alias_idx`: the index of the elem that `val` points at, or nothing for
`NOT_IN_BLOCK`. -/
def aliasIdx (self : Deque) : Operand α -> Run S (Option Nat)
  | .outside _ => return none
  | .slot slot => do
      Run.require (slot < self.cap)
      let idx := idxOf self slot
      Run.require (idx < self.len)
      return some idx

/-- The elem that `val` pointed at, found again by its index. -/
def operand (self : Deque) (val : Operand α) (idx : Option Nat) : Run (DequeMem α) (Option α) :=
  match idx, val with
  | some idx, _ => elemAt self idx
  | none, .outside val => return some val
  | none, .slot _ => failure

/-! ## The block -/

/-- `block_layout`. -/
def blockLayout (self : Deque) (cap : Nat) : Layout := ⟨wrapMul self.elem.size cap, self.elem.align⟩

/-- `free_block`. -/
def freeBlock (α : Type) (self : Deque) : Run (DequeMem α) Unit :=
  dealloc self.al self.data (blockLayout self self.cap)

/-- `adopt_block`. -/
def adoptBlock (α : Type) (self : Deque) (ptr : Addr) (cap : Nat) : Run (DequeMem α) Deque := do
  freeBlock α self
  return { self with data := some ptr, cap, head := 0 }

/-- `release_data`. -/
def releaseData (α : Type) (self : Deque) : Run (DequeMem α) Deque := do
  freeBlock α self
  return { self with data := none, len := 0, cap := 0, head := 0 }

/-- `relocate`: unroll the ring into a fresh block. -/
def relocate (α : Type) (self : Deque) (newCap : Nat) : Run (DequeMem α) (Status × Deque) := do
  Run.require (newCap ≥ self.len)
  Run.require (newCap > 0)
  match ← alloc self.al (blockLayout self newCap) (List.replicate newCap none) with
  | none => return (.errNoMem, self)
  | some ptr =>
      let vals ← copyOut (α := α) self
      writeRun (some ptr) 0 vals
      let self ← adoptBlock α self ptr newCap
      assertDeque self
      return (.ok, self)

/-- `tda_deque_reserve`. -/
def reserve (α : Type) (self : Deque) (newCap : Nat) : Run (DequeMem α) (Status × Deque) := do
  assertDeque self
  if newCap ≤ self.cap then
    return (.ok, self)
  match self.elem.ckdArray newCap with
  | none => return (.errNoMem, self)
  | some _ => relocate α self newCap

/-- `next_cap`. -/
def nextCap (self : Deque) : Nat :=
  if self.cap = 0 then growthBase
  else
    match ckdMul self.cap growthFactor with
    | none => sizeMax
    | some grown => grown

/-- `reserve_for`: by the growth factor, or exactly if that is refused. -/
def reserveFor (α : Type) (self : Deque) (newLen : Nat) : Run (DequeMem α) (Status × Deque) := do
  Run.require (newLen > self.cap)
  let eager := nextCap self
  if eager > newLen then
    let (st, grown) ← reserve α self eager
    if st = .ok then
      return (st, grown)
    reserve α grown newLen
  else
    reserve α self newLen

/-- `reserve_one`. -/
def reserveOne (α : Type) (self : Deque) : Run (DequeMem α) (Status × Deque) :=
  if self.len < self.cap then
    return (.ok, self)
  else if self.cap = sizeMax then
    return (.errNoMem, self)
  else
    reserveFor α self (self.cap + 1)

/-- `open_gap`: the shorter side is shifted. -/
def openGap (α : Type) (self : Deque) (idx count : Nat) : Run (DequeMem α) (Status × Deque) := do
  Run.require (idx ≤ self.len)
  match ckdAdd self.len count with
  | none => return (.errNoMem, self)
  | some newLen =>
      let (st, self) ← if newLen > self.cap then reserveFor α self newLen else pure (.ok, self)
      if st ≠ .ok then
        return (st, self)
      let oldLen := self.len
      if idx < oldLen - idx then
        let head ← slotBack self self.head count
        let self := { self with head, len := newLen }
        moveElems α self 0 count idx
        return (.ok, self)
      else
        let self := { self with len := newLen }
        moveElems α self (idx + count) idx (oldLen - idx)
        return (.ok, self)

/-- `insert_raw`. -/
def insertRaw (self : Deque) (idx : Nat) (src : List α) : Run (DequeMem α) (Status × Deque) := do
  if src.length = 0 then
    return (.ok, self)
  let (st, self) ← openGap α self idx src.length
  if st ≠ .ok then
    return (st, self)
  copyRangeIn self idx (src.map some)
  assertDeque self
  return (.ok, self)

/-! ## Lifetime -/

/-- `tda_deque_init`. -/
def init (elem : Layout) (al : Al) : Run S Deque := do
  Run.require (elem.isType = true)
  Run.require (al.isSome = true)
  return { data := none, len := 0, cap := 0, head := 0, elem, al }

/-- `init_impl`; `fill` is what the block holds at first. -/
def initImpl (fill : Option α) (len cap : Nat) (elem : Layout) (al : Al) :
    Run (DequeMem α) (Status × Option Deque) := do
  Run.require (len ≤ cap)
  let obj ← init elem al
  if cap > 0 then
    match elem.ckdArray cap with
    | none => return (.errNoMem, none)
    | some block =>
        match ← alloc al block (List.replicate cap fill) with
        | none => return (.errNoMem, none)
        | some ptr =>
            let obj := { obj with data := some ptr, len, cap }
            assertDeque obj
            return (.ok, some obj)
  else
    let obj := { obj with len, cap }
    assertDeque obj
    return (.ok, some obj)

/-- `tda_deque_init_len`; `zero` is the elem whose bytes are all zero. -/
def initLen (zero : α) (len : Nat) (elem : Layout) (al : Al) :
    Run (DequeMem α) (Status × Option Deque) :=
  initImpl (some zero) len len elem al

/-- `tda_deque_init_cap`. -/
def initCap (α : Type) (cap : Nat) (elem : Layout) (al : Al) :
    Run (DequeMem α) (Status × Option Deque) :=
  initImpl (none : Option α) 0 cap elem al

/-- `tda_deque_from_data`. -/
def fromData (data : List α) (elem : Layout) (al : Al) :
    Run (DequeMem α) (Status × Option Deque) := do
  let (st, out) ← initImpl (none : Option α) data.length data.length elem al
  if st ≠ .ok then
    return (st, none)
  let obj ← Run.demand out
  fillRun obj.data (data.map some)
  return (.ok, some obj)

/-- `tda_deque_from_span`. -/
def fromSpan (s : SpanView α) (al : Al) : Run (DequeMem α) (Status × Option Deque) :=
  fromData s.elems s.elem al

/-- `tda_deque_deinit`. -/
def deinit (α : Type) (self : Deque) : Run (DequeMem α) Deque := do
  if self.al = none then
    Run.require (self.data = none)
    return self
  assertDeque self
  freeBlock α self
  return inert

/-- `tda_deque_copy_with`. -/
def copyWith (α : Type) (self : Deque) (al : Al) : Run (DequeMem α) (Status × Option Deque) := do
  assertDeque self
  let (st, out) ← initImpl (none : Option α) self.len self.len self.elem al
  if st ≠ .ok then
    return (st, none)
  let copy ← Run.demand out
  let vals ← copyOut (α := α) self
  fillRun copy.data vals
  return (.ok, some copy)

/-- The body of `tda_deque_copy_assign` for two different deques: a new block only
if the old one is too small. -/
def copyOver (α : Type) (self other : Deque) : Run (DequeMem α) (Status × Deque) := do
  let (st, self) ← if other.len > self.cap then do
      match ← alloc self.al (blockLayout self other.len) (List.replicate other.len none) with
      | none => pure (.errNoMem, self)
      | some ptr => do
          let self ← adoptBlock α self ptr other.len
          pure (.ok, self)
    else pure (.ok, self)
  if st ≠ .ok then
    return (st, self)
  let self := { self with head := 0, len := other.len }
  let vals ← copyOut (α := α) other
  fillRun self.data vals
  assertDeque self
  return (.ok, self)

/-! ## Spans -/

/-- `tda_deque_copy_to_span`: what it writes to `dst`. -/
def copyToSpan (self : Deque) (dstLen : Nat) (dstElem : Layout) :
    Run (DequeMem α) (List (Option α)) := do
  assertDeque self
  Run.require (self.elem = dstElem)
  Run.require (dstLen = self.len)
  copyOut self

/-- `tda_deque_copy_from_span`. -/
def copyFromSpan (self : Deque) (src : SpanView α) : Run (DequeMem α) Unit := do
  assertDeque self
  Run.require (self.elem = src.elem)
  Run.require (src.len = self.len)
  copyRangeIn self 0 (src.elems.map some)

/-- `tda_deque_to_spans` and `tda_deque_to_spans_mut`. -/
def toSpans (self : Deque) : Run S (DequeSpan × DequeSpan) := do
  assertDeque self
  let frontLen ← firstRun self
  Run.require (frontLen = 0 ∨ 0 < self.cap)
  let front : DequeSpan :=
    if frontLen ≠ 0 then ⟨self.data, slotOf self 0, frontLen, self.elem⟩
    else ⟨none, 0, 0, self.elem⟩
  return (front, ⟨self.data, 0, self.len - frontLen, self.elem⟩)

/-- The elems that a span shows. -/
def viewSpan (span : DequeSpan) : Run (DequeMem α) (List (Option α)) :=
  if span.len = 0 then return [] else readRun span.data span.slot span.len

/-- `eq_impl` for two different deques; `eq` compares two elems, by their bytes
if the source passes none. -/
def eqImpl (a b : Deque) (eq : α -> α -> Bool) : Run (DequeMem α) Bool := do
  if a.len ≠ b.len then
    return false
  Run.loop (fun i => do
    if i < a.len then
      let lhs ← Run.demand (← elemAt a i)
      let rhs ← Run.demand (← elemAt b i)
      if eq lhs rhs then
        return .again (i + 1)
      return .leave false
    else
      return .leave true)
    (a.len + 1) 0

/-- `*tda_deque_front(self)`. -/
def front (self : Deque) : Run (DequeMem α) α := do
  Run.require (self.al.isSome = true)
  Run.require (self.len > 0)
  Run.demand (← elemAt self 0)

/-- `*tda_deque_back(self)`. -/
def back (self : Deque) : Run (DequeMem α) α := do
  Run.require (self.al.isSome = true)
  Run.require (self.len > 0)
  Run.demand (← elemAt self (self.len - 1))

/-! ## Mods -/

/-- `tda_deque_set`. -/
def set (self : Deque) (idx : Nat) (val : Operand α) : Run (DequeMem α) Unit := do
  assertDeque self
  Run.require (idx < self.len)
  match val with
  | .outside val => setElemAt self idx (some val)
  | .slot slot => do
      let val ← readSlot self.data slot
      setElemAt self idx val

/-- `tda_deque_push_front`. -/
def pushFront (self : Deque) (val : Operand α) : Run (DequeMem α) (Status × Deque) := do
  assertDeque self
  let idx ← aliasIdx self val
  let (st, self) ← reserveOne α self
  if st ≠ .ok then
    return (st, self)
  -- read before the head moves, which renumbers every elem
  let src ← operand self val idx
  let head ← slotBack self self.head 1
  let self := { self with head }
  writeSlot self.data self.head src
  let self := { self with len := self.len + 1 }
  assertDeque self
  return (.ok, self)

/-- `tda_deque_push_back`. -/
def pushBack (self : Deque) (val : Operand α) : Run (DequeMem α) (Status × Deque) := do
  assertDeque self
  let idx ← aliasIdx self val
  let (st, self) ← reserveOne α self
  if st ≠ .ok then
    return (st, self)
  let src ← operand self val idx
  setElemAt self self.len src
  let self := { self with len := self.len + 1 }
  assertDeque self
  return (.ok, self)

/-- `tda_deque_pop_front`. -/
def popFront (self : Deque) : Run S Deque := do
  assertDeque self
  Run.require (self.len > 0)
  let head ← slotFwd self self.head 1
  let self := { self with head, len := self.len - 1 }
  assertDeque self
  return self

/-- `tda_deque_pop_back`. -/
def popBack (self : Deque) : Run S Deque := do
  assertDeque self
  Run.require (self.len > 0)
  let self := { self with len := self.len - 1 }
  assertDeque self
  return self

/-- The `memmove` to `out`. -/
def moveOut (self : Deque) (idx : Nat) (out : Target) : Run (DequeMem α) α := do
  let val ← Run.demand (← elemAt self idx)
  match out with
  | .outside => return val
  | .slot slot => do
      writeSlot self.data slot (some val)
      return val

/-- `tda_deque_pop_front_to`, with what it writes to `out`. -/
def popFrontTo (self : Deque) (out : Target) : Run (DequeMem α) (α × Deque) := do
  assertDeque self
  Run.require (self.len > 0)
  let val ← moveOut self 0 out
  let self ← popFront self
  return (val, self)

/-- `tda_deque_pop_back_to`, with what it writes to `out`. -/
def popBackTo (self : Deque) (out : Target) : Run (DequeMem α) (α × Deque) := do
  assertDeque self
  Run.require (self.len > 0)
  let val ← moveOut self (self.len - 1) out
  let self ← popBack self
  return (val, self)

/-- `tda_deque_insert`. -/
def insert (self : Deque) (idx : Nat) (val : Operand α) : Run (DequeMem α) (Status × Deque) := do
  assertDeque self
  Run.require (idx ≤ self.len)
  match ← aliasIdx self val, val with
  | none, .outside val => insertRaw self idx [val]
  | none, .slot _ => failure
  | some src, _ => do
      let (st, self) ← openGap α self idx 1
      if st ≠ .ok then
        return (st, self)
      -- the elems from `idx` on are one up, the one that `val` named among them
      moveElem α self idx (if src < idx then src else src + 1)
      assertDeque self
      return (.ok, self)

/-- `tda_deque_insert_span`. -/
def insertSpan (self : Deque) (idx : Nat) (src : SpanView α) :
    Run (DequeMem α) (Status × Deque) := do
  assertDeque self
  Run.require (self.elem = src.elem)
  Run.require (idx ≤ self.len)
  insertRaw self idx src.elems

/-- `tda_deque_extend`. -/
def extend (self : Deque) (src : SpanView α) : Run (DequeMem α) (Status × Deque) := do
  assertDeque self
  Run.require (self.elem = src.elem)
  insertSpan self self.len src

/-- `tda_deque_remove_range`: the shorter side slides over the gap. -/
def removeRange (α : Type) (self : Deque) (idx count : Nat) : Run (DequeMem α) Deque := do
  assertDeque self
  Run.require (idx ≤ self.len)
  Run.require (count ≤ self.len - idx)
  if count = 0 then
    return self
  if idx < self.len - idx - count then
    moveElems α self count 0 idx
    let head ← slotFwd self self.head count
    let self := { self with head, len := self.len - count }
    assertDeque self
    return self
  else
    moveElems α self idx (idx + count) (self.len - idx - count)
    let self := { self with len := self.len - count }
    assertDeque self
    return self

/-- `tda_deque_remove`. -/
def remove (α : Type) (self : Deque) (idx : Nat) : Run (DequeMem α) Deque := do
  assertDeque self
  Run.require (idx < self.len)
  removeRange α self idx 1

/-- `tda_deque_retain`, with the state the predicate leaves behind its `ctx`. -/
def retain (self : Deque) (pred : Pred α C) (ctx : C) : Run (DequeMem α) (Deque × C) := do
  assertDeque self
  let (kept, ctx) ← Run.countUp (fun i vars => do
    let val ← Run.demand (← elemAt self i)
    let (keep, ctx) := pred val vars.2
    if keep then
      -- until the first drop every kept elem is already in place
      if vars.1 ≠ i then
        moveElem α self vars.1 i
      return (vars.1 + 1, ctx)
    return (vars.1, ctx)) self.len 0 (0, ctx)
  let self := { self with len := kept }
  assertDeque self
  return (self, ctx)

/-- `tda_deque_clear`. -/
def clear (self : Deque) : Run S Deque := do
  assertDeque self
  let self := { self with len := 0, head := 0 }
  assertDeque self
  return self

/-- `tda_deque_shrink_to_fit`. -/
def shrinkToFit (α : Type) (self : Deque) : Run (DequeMem α) (Status × Deque) := do
  assertDeque self
  if self.len = self.cap then
    return (.ok, self)
  if self.len = 0 then
    let self ← releaseData α self
    assertDeque self
    return (.ok, self)
  relocate α self self.len

/-- `tda_deque_resize`; `zero` is the elem whose bytes are all zero. -/
def resize (zero : α) (self : Deque) (newLen : Nat) : Run (DequeMem α) (Status × Deque) := do
  assertDeque self
  if newLen ≤ self.len then
    let self := { self with len := newLen }
    assertDeque self
    return (.ok, self)
  let (st, self) ← if newLen > self.cap then reserveFor α self newLen else pure (.ok, self)
  if st ≠ .ok then
    return (st, self)
  Run.countUp (fun i _ => setElemAt self i (some zero)) (newLen - self.len) self.len ()
  let self := { self with len := newLen }
  assertDeque self
  return (.ok, self)

/-- `tda_deque_truncate`. -/
def truncate (self : Deque) (newLen : Nat) : Run S Deque := do
  assertDeque self
  let self := if newLen < self.len then { self with len := newLen } else self
  assertDeque self
  return self

/-- `tda_deque_swap_elems`. -/
def swapElems (α : Type) (self : Deque) (i j : Nat) : Run (DequeMem α) Unit := do
  assertDeque self
  Run.require (i < self.len)
  Run.require (j < self.len)
  if i = j then
    return ()
  let a ← elemAt (α := α) self i
  let b ← elemAt self j
  setElemAt self i b
  setElemAt self j a

end Deque
end TerseDsa
