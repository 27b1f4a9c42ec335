import TerseDsa.Foundation.Assigning
import TerseDsa.Vec.Model

namespace TerseDsa

open Foundation

/-!
# `ds/arr`

An array whose length is that of its block.  Every slot of the block is an
elem, so that no capacity is stored: the size of the block is worked out anew
from the length each time the allocator is told it.
-/

/-- `tda_Arr`. -/
structure Arr where
  data : Option Addr
  len : Nat
  elem : Layout
  al : Al

abbrev ArrMem (α : Type) := SpanMem α

namespace Arr

variable {α S : Type}

/-- `= {}`: the state after `deinit`. -/
def inert : Arr := ⟨none, 0, ⟨0, 0⟩, none⟩

/-- `ASSERT_ARR`. -/
def Asserts (self : Arr) : Prop :=
  self.elem.isType = true ∧ (self.len = 0 ∨ self.data.isSome = true) ∧ (self.data = none ∨ 0 < self.len) ∧
    self.al.isSome = true

instance (self : Arr) : Decidable self.Asserts := by
  unfold Asserts
  infer_instance

def assertArr (self : Arr) : Run S Unit := Run.require self.Asserts

/-! ## Access to the block -/

/-- The slots of the block. -/
def slots (self : Arr) : Slice := ⟨self.data, 0, self.len⟩

/-- How many elems so many bytes are. -/
def elemsIn (self : Arr) (bytes : Nat) : Run S Nat := do
  Run.require (bytes % self.elem.size = 0)
  return bytes / self.elem.size

/-- `*elem_at(self, idx)`. -/
def readElem (self : Arr) (idx : Nat) : Run (ArrMem α) α := do
  let cell ← Slice.read self.slots idx
  Run.demand cell

/-- `*elem_at_mut(self, idx) = val`. -/
def writeElem (self : Arr) (idx : Nat) (val : α) : Run (ArrMem α) Unit :=
  Slice.write self.slots idx (some val)

/-- The first so many bytes of elems. -/
def readElems (self : Arr) (bytes : Nat) : Run (ArrMem α) (List α) := do
  let count ← elemsIn self bytes
  let cells ← Slice.readRun self.slots 0 count
  Run.demand (cells.mapM id)

/-- So many bytes of the elems, to the front. -/
def writeElems (self : Arr) (vals : List α) (bytes : Nat) : Run (ArrMem α) Unit := do
  let count ← elemsIn self bytes
  Run.require (count ≤ vals.length)
  Slice.writeRun self.slots 0 ((vals.take count).map some)

/-- `len_bytes`. -/
def lenBytes (self : Arr) : Nat := wrapMul self.len self.elem.size

/-- `block_layout`. -/
def blockLayout (self : Arr) : Layout := Span.elemsLayout self.elem self.len

/-- `tda_arr_to_span` and `tda_arr_to_span_mut`. -/
def toSpan (self : Arr) : Run S Span := do
  Run.require (self.al.isSome = true)
  Run.require (self.data.isSome = true ∨ self.len = 0)
  Run.require (self.elem.isType = true)
  return ⟨⟨self.data, 0, self.len⟩, self.elem⟩

/-! ## Lifetime -/

/-- `init_impl`; `fill` is what the block holds at first. -/
def initImpl (fill : Option α) (len : Nat) (elem : Layout) (al : Al) : Run (ArrMem α) (Status × Option Arr) := do
  Run.require (elem.isType = true)
  Run.require (al.isSome = true)
  let obj : Arr := { data := none, len, elem, al }
  if len > 0 then
    match elem.ckdArray len with
    | none => return (.errNoMem, none)
    | some block =>
        match ← alloc al block (List.replicate len fill) with
        | none => return (.errNoMem, none)
        | some ptr =>
            let obj := { obj with data := some ptr }
            assertArr obj
            return (.ok, some obj)
  else
    assertArr obj
    return (.ok, some obj)

/-- `tda_arr_init_len`; `zero` is the elem whose bytes are all zero. -/
def initLen (zero : α) (len : Nat) (elem : Layout) (al : Al) : Run (ArrMem α) (Status × Option Arr) :=
  initImpl (some zero) len elem al

/-- The body of `tda_arr_from_data`; `data` reads the elems that are copied in, when
there are any. -/
def fromImpl (data : Nat -> Run (ArrMem α) (List α)) (len : Nat) (elem : Layout) (al : Al) :
    Run (ArrMem α) (Status × Option Arr) := do
  let (st, out) ← initImpl (none : Option α) len elem al
  if st ≠ .ok then
    return (st, none)
  let obj ← Run.demand out
  if len > 0 then
    let vals ← data (lenBytes obj)
    writeElems obj vals (lenBytes obj)
  return (.ok, some obj)

/-- `tda_arr_from_data`, from outside. -/
def fromData (data : List α) (elem : Layout) (al : Al) : Run (ArrMem α) (Status × Option Arr) :=
  fromImpl (fun _ => return data) data.length elem al

/-- `tda_arr_from_span`, from outside. -/
def fromSpan (s : SpanView α) (al : Al) : Run (ArrMem α) (Status × Option Arr) :=
  fromData s.elems s.elem al

/-- `tda_arr_init_raw`. -/
def initRaw (elems : RawElems) (al : Al) : Run S Arr := do
  Run.require ((elems.data.isSome = true ∨ elems.len = 0) ∧ elems.elem.isType = true)
  Run.require (al.isSome = true)
  Run.require (elems.data = none <-> elems.len = 0)
  Run.require ((elems.elem.ckdArray elems.len).isSome = true)
  return { data := elems.data, len := elems.len, elem := elems.elem, al }

/-- `tda_arr_into_raw`. -/
def intoRaw (self : Arr) : Run S (RawElems × Arr) := do
  assertArr self
  return (⟨self.data, self.len, self.elem⟩, inert)

/-- `tda_arr_deinit`. -/
def deinit (α : Type) (self : Arr) : Run (ArrMem α) Arr := do
  if self.al = none then
    Run.require (self.data = none)
    return self
  assertArr self
  dealloc self.al self.data (blockLayout self)
  return inert

/-- `tda_arr_copy_with`. -/
def copyWith (α : Type) (self : Arr) (al : Al) : Run (ArrMem α) (Status × Option Arr) := do
  assertArr self
  Run.require (al.isSome = true)
  let s ← toSpan self
  Span.assertSpan s
  fromImpl (readElems (α := α) self) s.len s.elem al

/-- The body of `tda_arr_copy_assign` for two different arrs. -/
def copyOver (α : Type) (self other : Arr) : Run (ArrMem α) (Status × Arr) := do
  let selfBytes := lenBytes self
  let otherBytes := lenBytes other
  let (st, self) ← if selfBytes ≠ otherBytes then do
      let ptr ← realloc self.al self.data (blockLayout self) otherBytes
        (List.replicate other.len (none : Option α)) (fitted other.len)
      if otherBytes > 0 ∧ ptr = none then
        pure (Status.errNoMem, self)
      else
        pure (Status.ok, { self with data := ptr, len := other.len })
    else
      pure (Status.ok, self)
  if st ≠ .ok then
    return (st, self)
  if otherBytes > 0 then
    Run.require (self.data ≠ other.data)
    let vals : List α ← readElems other otherBytes
    writeElems self vals otherBytes
  assertArr self
  return (.ok, self)

/-- What a new arr on the allocator and of the layout of another is. -/
def bareOf (self : Arr) : Arr := ⟨none, 0, self.elem, self.al⟩

/-! ## Elems -/

/-- `*tda_arr_get(self, idx)`. -/
def get (self : Arr) (idx : Nat) : Run (ArrMem α) α := do
  Run.require (self.al.isSome = true)
  Run.require (idx < self.len)
  readElem self idx

/-- `tda_arr_set`. -/
def set (self : Arr) (idx : Nat) (val : Operand α) : Run (ArrMem α) Unit := do
  assertArr self
  Run.require (idx < self.len)
  match val with
  | .outside val => writeElem self idx val
  | .slot slot => do
      let val : α ← readElem self slot
      writeElem self idx val

/-- `tda_arr_swap_elems`. -/
def swapElems (α : Type) (self : Arr) (i j : Nat) : Run (ArrMem α) Unit := do
  assertArr self
  Run.require (i < self.len)
  Run.require (j < self.len)
  let s ← toSpan self
  Span.swapElems α s i j

end Arr

/-- The arr variables of a program, and its memory. -/
abbrev ArrObjects (α : Type) := Objects Arr AlTag (List (Option α))

namespace ArrObjects

open Objects Arr

/-- How arrs are checked, released and made anew. -/
def handling (α : Type) : Handling Arr AlTag (List (Option α)) where
  inert := Arr.inert
  real arr := arr.al.isSome
  alike a b := decide (a.elem = b.elem)
  check := assertArr
  release := deinit α
  renew arr := return bareOf arr

/-- `tda_arr_copy_assign`. -/
def copyAssign (α : Type) (self other : Nat) : Run (ArrObjects α) Status :=
  (handling α).copyAssign (copyOver α) .ok self other

/-- `tda_arr_move_assign`. -/
def moveAssign (α : Type) (self other : Nat) : Run (ArrObjects α) Unit := (handling α).moveAssign self other

/-- `tda_arr_swap`. -/
def swap (α : Type) (self other : Nat) : Run (ArrObjects α) Unit := (handling α).swap self other

/-- Write a constructor's object to `out` if there is one. -/
def fill {α : Type} (out : Nat) (result : Status × Option Arr) : Run (ArrObjects α) Status := do
  match result with
  | (st, some arr) =>
      store out arr
      return st
  | (st, none) => return st

end ArrObjects
end TerseDsa
