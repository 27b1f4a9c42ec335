import TerseDsa.Core.Spans

namespace TerseDsa

open Foundation

/-!
# `ds/vec`

An array that grows, in one block.  Slots of the block may be unset, and an
elem is read only out of a slot that is set.  The operations take the struct
and hand it back, as the C functions update `self` in place.

Offsets count elems, as the arguments of `elem_at` do.  What is moved is
counted in bytes, as `memcpy`, `memmove` and `memset` are told it.
-/

/-- `tda_Vec`. -/
structure Vec where
  data : Option Addr
  len : Nat
  cap : Nat
  elem : Layout
  al : Al

abbrev VecMem (α : Type) := SpanMem α

/-- A `tda_SpanMut` from the start of a block on. -/
structure RawElems where
  data : Option Addr
  len : Nat
  elem : Layout

/-- What a block of `cap` elems holds of an old one: `realloc` keeps what fits. -/
def fitted {α : Type} (cap : Nat) (cells : List (Option α)) : List (Option α) :=
  cells.take cap ++ List.replicate (cap - cells.length) none

namespace Vec

variable {α C S : Type}

def growthBase : Nat := 1
def growthFactor : Nat := 2

/-- `= {}`: the state after `deinit`. -/
def inert : Vec := ⟨none, 0, 0, ⟨0, 0⟩, none⟩

/-- `ASSERT_VEC`. -/
def Asserts (self : Vec) : Prop :=
  self.elem.isType = true ∧ self.len ≤ self.cap ∧ (self.cap = 0 ∨ self.data.isSome = true) ∧
    (self.data = none ∨ 0 < self.cap) ∧ self.al.isSome = true

instance (self : Vec) : Decidable self.Asserts := by
  unfold Asserts
  infer_instance

def assertVec (self : Vec) : Run S Unit := Run.require self.Asserts

/-! ## Access to the block -/

/-- The slots of the block. -/
def slots (self : Vec) : Slice := ⟨self.data, 0, self.cap⟩

/-- How many elems so many bytes are. -/
def elemsIn (self : Vec) (bytes : Nat) : Run S Nat := do
  Run.require (bytes % self.elem.size = 0)
  return bytes / self.elem.size

/-- `*elem_at(self, idx)`. -/
def readElem (self : Vec) (idx : Nat) : Run (VecMem α) α := do
  let cell ← Slice.read self.slots idx
  Run.demand cell

/-- `*elem_at_mut(self, idx) = val`. -/
def writeElem (self : Vec) (idx : Nat) (val : α) : Run (VecMem α) Unit :=
  Slice.write self.slots idx (some val)

/-- The `memcpy` of one elem of the block over another. -/
def copyElem (α : Type) (self : Vec) (dst src : Nat) : Run (VecMem α) Unit := do
  Run.require (dst ≠ src)
  let val : α ← readElem self src
  writeElem self dst val

/-- So many bytes of elems from `idx` on, each of which is set. -/
def readElems (self : Vec) (idx bytes : Nat) : Run (VecMem α) (List α) := do
  let count ← elemsIn self bytes
  let cells ← Slice.readRun self.slots idx count
  Run.demand (cells.mapM id)

/-- So many bytes of the elems, to `idx` and on. -/
def writeElems (self : Vec) (idx : Nat) (vals : List α) (bytes : Nat) : Run (VecMem α) Unit := do
  let count ← elemsIn self bytes
  Run.require (count ≤ vals.length)
  Slice.writeRun self.slots idx ((vals.take count).map some)

/-- The `memmove` within the block. -/
def moveElems (α : Type) (self : Vec) (dst src bytes : Nat) : Run (VecMem α) Unit := do
  let vals : List α ← readElems self src bytes
  writeElems self dst vals bytes

/-- `len_bytes`. -/
def lenBytes (self : Vec) : Nat := wrapMul self.len self.elem.size

/-- `block_layout`. -/
def blockLayout (self : Vec) : Layout := Span.elemsLayout self.elem self.cap

/-- `alias_idx`: the index of the elem that `val` points at, or nothing for `NOT_IN_BLOCK`. -/
def aliasIdx (self : Vec) : Operand α -> Run S (Option Nat)
  | .outside _ => return none
  | .slot slot => do
      Run.require (slot < self.cap)
      Run.require (slot < self.len)
      return some slot

/-- The elem that `val` pointed at, found again by its index. -/
def operand (self : Vec) (val : Operand α) (idx : Option Nat) : Run (VecMem α) α :=
  match idx, val with
  | some idx, _ => readElem self idx
  | none, .outside val => return val
  | none, .slot _ => failure

/-- `tda_vec_to_span` and `tda_vec_to_span_mut`. -/
def toSpan (self : Vec) : Run S Span := do
  Run.require (self.al.isSome = true)
  Run.require (self.data.isSome = true ∨ self.len = 0)
  Run.require (self.elem.isType = true)
  return ⟨⟨self.data, 0, self.len⟩, self.elem⟩

/-! ## Growth -/

/-- `release_data`. -/
def releaseData (α : Type) (self : Vec) : Run (VecMem α) Vec := do
  dealloc self.al self.data (blockLayout self)
  return { self with data := none, len := 0, cap := 0 }

/-- `next_cap`. -/
def nextCap (self : Vec) : Nat :=
  if self.cap = 0 then growthBase
  else
    match ckdMul self.cap growthFactor with
    | none => sizeMax
    | some grown => grown

/-- `set_cap`. -/
def setCap (α : Type) (self : Vec) (newCap : Nat) : Run (VecMem α) (Status × Vec) := do
  Run.require (newCap ≥ self.len)
  Run.require (newCap > 0)
  match self.elem.ckdArray newCap with
  | none => return (.errNoMem, self)
  | some block =>
      match ← realloc self.al self.data (blockLayout self) block.size
          (List.replicate newCap (none : Option α)) (fitted newCap) with
      | none => return (.errNoMem, self)
      | some ptr => return (.ok, { self with data := some ptr, cap := newCap })

/-- `reserve_for`: by the growth factor, or exactly if that is refused. -/
def reserveFor (α : Type) (self : Vec) (newLen : Nat) : Run (VecMem α) (Status × Vec) := do
  if newLen ≤ self.cap then
    return (.ok, self)
  let eager := nextCap self
  if eager > newLen then
    let (st, grown) ← setCap α self eager
    if st = .ok then
      return (st, grown)
    setCap α grown newLen
  else
    setCap α self newLen

/-- `reserve_one`. -/
def reserveOne (α : Type) (self : Vec) : Run (VecMem α) (Status × Vec) :=
  if self.len < self.cap then
    return (.ok, self)
  else if self.cap = sizeMax then
    return (.errNoMem, self)
  else
    reserveFor α self (self.cap + 1)

/-- `open_gap`: one move for the whole run. -/
def openGap (α : Type) (self : Vec) (idx count : Nat) : Run (VecMem α) (Status × Vec) := do
  Run.require (idx ≤ self.len)
  match ckdAdd self.len count with
  | none => return (.errNoMem, self)
  | some newLen =>
      let (st, self) ← reserveFor α self newLen
      if st ≠ .ok then
        return (st, self)
      let tail := self.len - idx
      if tail > 0 then
        moveElems α self (idx + count) idx (wrapMul tail self.elem.size)
      return (.ok, { self with len := newLen })

/-- `insert_raw`. -/
def insertRaw (self : Vec) (idx : Nat) (src : List α) : Run (VecMem α) (Status × Vec) := do
  if src.length = 0 then
    return (.ok, self)
  let (st, self) ← openGap α self idx src.length
  if st ≠ .ok then
    return (st, self)
  writeElems self idx src (wrapMul src.length self.elem.size)
  assertVec self
  return (.ok, self)

/-! ## Lifetime -/

/-- `tda_vec_init`. -/
def init (elem : Layout) (al : Al) : Run S Vec := do
  Run.require (elem.isType = true)
  Run.require (al.isSome = true)
  return { data := none, len := 0, cap := 0, elem, al }

/-- `init_impl`; `fill` is what the block holds at first. -/
def initImpl (fill : Option α) (len cap : Nat) (elem : Layout) (al : Al) :
    Run (VecMem α) (Status × Option Vec) := do
  Run.require (len ≤ cap)
  let obj ← init elem al
  if cap > 0 then
    match elem.ckdArray cap with
    | none => return (.errNoMem, none)
    | some block =>
        match ← alloc al block (List.replicate cap fill) with
        | none => return (.errNoMem, none)
        | some ptr =>
            let obj := { obj with data := some ptr, len, cap }
            assertVec obj
            return (.ok, some obj)
  else
    let obj := { obj with len, cap }
    assertVec obj
    return (.ok, some obj)

/-- `tda_vec_init_len`; `zero` is the elem whose bytes are all zero. -/
def initLen (zero : α) (len : Nat) (elem : Layout) (al : Al) : Run (VecMem α) (Status × Option Vec) :=
  initImpl (some zero) len len elem al

/-- `tda_vec_init_cap`. -/
def initCap (α : Type) (cap : Nat) (elem : Layout) (al : Al) : Run (VecMem α) (Status × Option Vec) :=
  initImpl (none : Option α) 0 cap elem al

/-- The body of `tda_vec_from_data`; `data` reads the elems that are copied in, when
there are any. -/
def fromImpl (data : Nat -> Run (VecMem α) (List α)) (len : Nat) (elem : Layout) (al : Al) :
    Run (VecMem α) (Status × Option Vec) := do
  let (st, out) ← initImpl (none : Option α) len len elem al
  if st ≠ .ok then
    return (st, none)
  let obj ← Run.demand out
  if len > 0 then
    let vals ← data (lenBytes obj)
    writeElems obj 0 vals (lenBytes obj)
  return (.ok, some obj)

/-- `tda_vec_from_data`, from outside. -/
def fromData (data : List α) (elem : Layout) (al : Al) : Run (VecMem α) (Status × Option Vec) :=
  fromImpl (fun _ => return data) data.length elem al

/-- `tda_vec_from_span`, from outside. -/
def fromSpan (s : SpanView α) (al : Al) : Run (VecMem α) (Status × Option Vec) :=
  fromData s.elems s.elem al

/-- `tda_vec_init_raw`. -/
def initRaw (elems : RawElems) (cap : Nat) (al : Al) : Run S Vec := do
  Run.require ((elems.data.isSome = true ∨ elems.len = 0) ∧ elems.elem.isType = true)
  Run.require (al.isSome = true)
  Run.require (elems.len ≤ cap)
  Run.require (elems.data = none <-> cap = 0)
  Run.require ((elems.elem.ckdArray cap).isSome = true)
  return { data := elems.data, len := elems.len, cap, elem := elems.elem, al }

/-- `tda_vec_into_raw`, with what it writes to `out_elems` and `out_cap`. -/
def intoRaw (self : Vec) : Run S (RawElems × Nat × Vec) := do
  assertVec self
  let elems ← toSpan self
  return (⟨elems.data, elems.len, elems.elem⟩, self.cap, inert)

/-- `tda_vec_deinit`. -/
def deinit (α : Type) (self : Vec) : Run (VecMem α) Vec := do
  if self.al = none then
    Run.require (self.data = none)
    return self
  assertVec self
  dealloc self.al self.data (blockLayout self)
  return inert

/-- `tda_vec_copy_with`. -/
def copyWith (α : Type) (self : Vec) (al : Al) : Run (VecMem α) (Status × Option Vec) := do
  assertVec self
  Run.require (al.isSome = true)
  let s ← toSpan self
  Span.assertSpan s
  fromImpl (readElems (α := α) self 0) s.len s.elem al

/-- `tda_vec_reserve`. -/
def reserve (α : Type) (self : Vec) (newCap : Nat) : Run (VecMem α) (Status × Vec) := do
  assertVec self
  if newCap ≤ self.cap then
    return (.ok, self)
  let (st, self) ← setCap α self newCap
  assertVec self
  return (st, self)

/-- The body of `tda_vec_copy_assign` for two different vecs. -/
def copyOver (α : Type) (self other : Vec) : Run (VecMem α) (Status × Vec) := do
  let (st, self) ← reserve α self other.len
  if st ≠ .ok then
    return (st, self)
  if other.len > 0 then
    Run.require (self.data ≠ other.data)
    let vals : List α ← readElems other 0 (lenBytes other)
    writeElems self 0 vals (lenBytes other)
  let self := { self with len := other.len }
  assertVec self
  return (.ok, self)

/-! ## Access -/

/-- `*tda_vec_get(self, idx)`. -/
def get (self : Vec) (idx : Nat) : Run (VecMem α) α := do
  Run.require (self.al.isSome = true)
  Run.require (idx < self.len)
  readElem self idx

/-- `*tda_vec_back(self)`. -/
def back (self : Vec) : Run (VecMem α) α := do
  Run.require (self.al.isSome = true)
  Run.require (self.len > 0)
  readElem self (self.len - 1)

/-- `tda_vec_set`. -/
def set (self : Vec) (idx : Nat) (val : Operand α) : Run (VecMem α) Unit := do
  assertVec self
  Run.require (idx < self.len)
  match val with
  | .outside val => writeElem self idx val
  | .slot slot => do
      let val : α ← readElem self slot
      writeElem self idx val

/-! ## Mods -/

/-- `tda_vec_push`. -/
def push (self : Vec) (val : Operand α) : Run (VecMem α) (Status × Vec) := do
  assertVec self
  let idx ← aliasIdx self val
  let (st, self) ← reserveOne α self
  if st ≠ .ok then
    return (st, self)
  let src ← operand self val idx
  writeElem self self.len src
  let self := { self with len := self.len + 1 }
  assertVec self
  return (.ok, self)

/-- `tda_vec_push_assume_cap`. -/
def pushAssumeCap (self : Vec) (val : Operand α) : Run (VecMem α) Vec := do
  Run.require (self.al.isSome = true)
  Run.require (self.len < self.cap)
  match val with
  | .outside val => writeElem self self.len val
  | .slot slot => copyElem α self self.len slot
  return { self with len := self.len + 1 }

/-- `tda_vec_add_one`, with the index of the slot it writes to `out`. -/
def addOne (α : Type) (self : Vec) : Run (VecMem α) (Status × Option Nat × Vec) := do
  assertVec self
  let (st, self) ← reserveOne α self
  if st ≠ .ok then
    return (st, none, self)
  let out := self.len
  let self := { self with len := self.len + 1 }
  assertVec self
  return (.ok, some out, self)

/-- `tda_vec_add_one`, and the elem that its caller writes to the slot. -/
def addElem (self : Vec) (val : α) : Run (VecMem α) (Status × Vec) := do
  match ← addOne α self with
  | (st, none, after) => return (st, after)
  | (st, some out, after) =>
      writeElem after out val
      return (st, after)

/-- `tda_vec_pop`. -/
def pop (self : Vec) : Run S Vec := do
  Run.require (self.al.isSome = true)
  Run.require (self.len > 0)
  return { self with len := self.len - 1 }

/-- `tda_vec_pop_to`, with what it writes to `out`. -/
def popTo (self : Vec) (out : Target) : Run (VecMem α) (α × Vec) := do
  assertVec self
  Run.require (self.len > 0)
  let self := { self with len := self.len - 1 }
  let val : α ← readElem self self.len
  match out with
  | .outside => pure ()
  | .slot slot => writeElem self slot val
  assertVec self
  return (val, self)

/-- `tda_vec_insert`. -/
def insert (self : Vec) (idx : Nat) (val : Operand α) : Run (VecMem α) (Status × Vec) := do
  assertVec self
  Run.require (idx ≤ self.len)
  match ← aliasIdx self val, val with
  | none, .outside val => insertRaw self idx [val]
  | none, .slot _ => failure
  | some src, _ => do
      let (st, self) ← openGap α self idx 1
      if st ≠ .ok then
        return (st, self)
      -- every elem from `idx` on is one place up, the one that `val` named among them
      copyElem α self idx (if src < idx then src else src + 1)
      assertVec self
      return (.ok, self)

/-- `tda_vec_insert_span`, of a span that does not overlap the block. -/
def insertSpan (self : Vec) (idx : Nat) (src : SpanView α) : Run (VecMem α) (Status × Vec) := do
  assertVec self
  Run.require (self.elem = src.elem)
  Run.require (idx ≤ self.len)
  insertRaw self idx src.elems

/-- `tda_vec_extend`, by a span that does not overlap the block. -/
def extend (self : Vec) (src : SpanView α) : Run (VecMem α) (Status × Vec) := do
  assertVec self
  Run.require (self.elem = src.elem)
  insertSpan self self.len src

/-- `tda_vec_remove_range`. -/
def removeRange (α : Type) (self : Vec) (idx count : Nat) : Run (VecMem α) Vec := do
  assertVec self
  Run.require (idx ≤ self.len)
  Run.require (count ≤ self.len - idx)
  if count = 0 then
    return self
  let tail := self.len - idx - count
  if tail > 0 then
    moveElems α self idx (idx + count) (wrapMul tail self.elem.size)
  let self := { self with len := self.len - count }
  assertVec self
  return self

/-- `tda_vec_remove`. -/
def remove (α : Type) (self : Vec) (idx : Nat) : Run (VecMem α) Vec := do
  assertVec self
  Run.require (idx < self.len)
  removeRange α self idx 1

/-- `tda_vec_swap_remove`. -/
def swapRemove (α : Type) (self : Vec) (idx : Nat) : Run (VecMem α) Vec := do
  assertVec self
  Run.require (idx < self.len)
  let self := { self with len := self.len - 1 }
  -- removing the back elem leaves no gap
  if idx ≠ self.len then
    copyElem α self idx self.len
  assertVec self
  return self

/-- `tda_vec_retain`, with the state the predicate leaves behind its `ctx`. -/
def retain (self : Vec) (pred : Pred α C) (ctx : C) : Run (VecMem α) (Vec × C) := do
  assertVec self
  let (kept, ctx) ← Run.countUp (fun i vars => do
    let val : α ← readElem self i
    let (keep, ctx) := pred val vars.2
    if keep then
      -- until the first drop every kept elem is already in place
      if vars.1 ≠ i then
        copyElem α self vars.1 i
      return (vars.1 + 1, ctx)
    return (vars.1, ctx)) self.len 0 (0, ctx)
  let self := { self with len := kept }
  assertVec self
  return (self, ctx)

/-- `tda_vec_clear`. -/
def clear (self : Vec) : Run S Vec := do
  Run.require (self.al.isSome = true)
  return { self with len := 0 }

/-- `tda_vec_shrink_to_fit`. -/
def shrinkToFit (α : Type) (self : Vec) : Run (VecMem α) (Status × Vec) := do
  assertVec self
  if self.len = self.cap then
    return (.ok, self)
  if self.len = 0 then
    let self ← releaseData α self
    assertVec self
    return (.ok, self)
  let (st, self) ← setCap α self self.len
  assertVec self
  return (st, self)

/-- `tda_vec_resize`; `zero` is the elem whose bytes are all zero. -/
def resize (zero : α) (self : Vec) (newLen : Nat) : Run (VecMem α) (Status × Vec) := do
  assertVec self
  if newLen ≤ self.len then
    let self := { self with len := newLen }
    assertVec self
    return (.ok, self)
  let (st, self) ← reserveFor α self newLen
  if st ≠ .ok then
    return (st, self)
  -- the new room is unspecified
  let addBytes := wrapMul (newLen - self.len) self.elem.size
  writeElems self self.len (List.replicate (newLen - self.len) zero) addBytes
  let self := { self with len := newLen }
  assertVec self
  return (.ok, self)

/-- `tda_vec_truncate`. -/
def truncate (self : Vec) (newLen : Nat) : Run S Vec := do
  assertVec self
  let self := if newLen < self.len then { self with len := newLen } else self
  assertVec self
  return self

/-- `tda_vec_swap_elems`. -/
def swapElems (α : Type) (self : Vec) (i j : Nat) : Run (VecMem α) Unit := do
  assertVec self
  Run.require (i < self.len)
  Run.require (j < self.len)
  let s ← toSpan self
  Span.swapElems α s i j

end Vec
end TerseDsa
