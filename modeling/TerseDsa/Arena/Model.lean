import TerseDsa.Alloc.Vtable
import TerseDsa.Core.Layout

namespace TerseDsa

open Foundation

/-!
# `alloc/arena`

One block that a cursor moves through.  The hooks see the arena struct only:
what is in the block is the callers'.  `P` is the state of what the arena was
taken from, with memory in it.
-/

/-- `tda_Arena`; over a caller's buffer there is no parent. -/
structure Arena (P : Type) where
  parent : Option (AlVtable P)
  data : Option Addr
  cap : Nat
  offset : Nat
  floor : Nat

/-- `tda_ArenaStats`. -/
structure ArenaStats where
  cap : Nat
  used : Nat
  free : Nat

/-- `tda_ArenaMark`. -/
structure ArenaMark where
  offset : Nat
  floor : Nat

namespace Arena

variable {P : Type}

/-- `= {}`: the state after `deinit`. -/
def inert : Arena P := ⟨none, none, 0, 0, 0⟩

/-- `ASSERT_ARENA`. -/
def Asserts (self : Arena P) : Prop :=
  self.data.isSome = true ∧ 0 < self.cap ∧ self.floor ≤ self.offset ∧ self.offset ≤ self.cap

instance (self : Arena P) : Decidable self.Asserts := by
  unfold Asserts
  infer_instance

def assertArena {S : Type} (self : Arena P) : Run S Unit := Run.require self.Asserts

/-! ## Where blocks lie -/

/-- `block_layout`. -/
def blockLayout (cap : Nat) : Layout := ⟨cap, 1⟩

/-- `block_start`. -/
def blockStart (data ptr : Addr) : Nat := wrapSub ptr data

/-- `block_end`: nothing when it would pass the capacity. -/
def blockEnd (self : Arena P) (start size : Nat) : Option Nat :=
  (ckdAdd start size).bind fun end_ => if end_ ≤ self.cap then some end_ else none

/-- `is_last_block`. -/
def isLastBlock (self : Arena P) (data ptr : Addr) (size : Nat) : Bool :=
  wrapAdd (blockStart data ptr) size == self.offset

/-- `owns_block`. -/
def ownsBlock (self : Arena P) (data ptr : Addr) (size : Nat) : Bool :=
  decide (data ≤ ptr) && decide (wrapSub ptr data ≤ self.offset) &&
    decide (size ≤ wrapSub self.offset (wrapSub ptr data))

/-! ## Lifetime -/

/-- `fill`. -/
def fill (parent : Option (AlVtable P)) (data : Addr) (cap : Nat) : Arena P :=
  ⟨parent, some data, cap, 0, 0⟩

/-- `tda_arena_init_cap`. -/
def initCap [HasBytes P] (cap : Nat) (parent : AlVtable P) : Run P (Status × Option (Arena P)) := do
  Run.require (0 < cap)
  match ← AlVtable.allocate parent (blockLayout cap) with
  | none => return (.errNoMem, none)
  | some data => return (.ok, some (fill (some parent) data cap))

/-- `tda_arena_init_buf`. -/
def initBuf (buf : Addr) (cap : Nat) : Run P (Arena P) := do
  Run.require (buf ≠ 0)
  Run.require (0 < cap)
  return fill none buf cap

/-- `tda_arena_deinit`. -/
def deinit [HasBytes P] (self : Arena P) : Run P (Arena P) := do
  match self.data with
  | none => return self
  | some data =>
      assertArena self
      -- a caller's buffer stays the caller's
      match self.parent with
      | none => return inert
      | some parent =>
          AlVtable.deallocate parent (some data) (blockLayout self.cap)
          return inert

/-! ## Hooks -/

/-- `arena_alloc`. -/
def alloc (layout : Layout) : Run (World (Arena P) P) (Option Addr) := do
  let self ← World.self
  assertArena self
  Run.require (0 < layout.size)
  let data ← Run.demand self.data
  let cursor := wrapAdd data self.offset
  Run.require (cursor ≠ 0 ∧ Layout.isAlign layout.align = true)
  -- the padding is a count, checked before an address is formed
  match ckdAdd self.offset (alignPad cursor layout.align) with
  | none => return none
  | some start =>
      match blockEnd self start layout.size with
      | none => return none
      | some end_ =>
          World.setSelf { self with offset := end_ }
          return some (wrapAdd data start)

/-- `arena_resize`: the last block resizes in place unless it starts under the
floor; any other one shrinks in place. -/
def resize (ptr : Addr) (old : Layout) (newSize : Nat) : Run (World (Arena P) P) Bool := do
  let self ← World.self
  assertArena self
  Run.require (0 < old.size ∧ 0 < newSize)
  let data ← Run.demand self.data
  Run.require (ownsBlock self data ptr old.size = true)
  let start := blockStart data ptr
  if isLastBlock self data ptr old.size = true ∧ self.floor ≤ start then
    match blockEnd self start newSize with
    | none => return false
    | some end_ =>
        World.setSelf { self with offset := end_ }
        return true
  return decide (newSize ≤ old.size)

/-- `arena_dealloc`: nothing is freed per block. -/
def dealloc (_ : Addr) (_ : Layout) : Run (World (Arena P) P) Unit := do
  let self ← World.self
  assertArena self

/-- `tda_arena_to_al`. -/
def toAl (P : Type) : AlVtable (World (Arena P) P) where
  alloc := alloc
  allocZeroed := none
  resize := some resize
  remap := none
  dealloc := dealloc

/-- `tda_arena_stats`. -/
def stats {S : Type} (self : Arena P) : Run S ArenaStats := do
  assertArena self
  return ⟨self.cap, self.offset, wrapSub self.cap self.offset⟩

/-! ## Mods -/

/-- `tda_arena_reset`. -/
def reset : Run (World (Arena P) P) Unit := do
  let self ← World.self
  assertArena self
  World.setSelf { self with offset := 0, floor := 0 }

/-- `tda_arena_mark`. -/
def mark : Run (World (Arena P) P) ArenaMark := do
  let self ← World.self
  assertArena self
  World.setSelf { self with floor := self.offset }
  return ⟨self.offset, self.floor⟩

/-- `tda_arena_rewind`. -/
def rewind (mark : ArenaMark) : Run (World (Arena P) P) Unit := do
  let self ← World.self
  assertArena self
  Run.require (mark.offset ≤ self.offset)
  Run.require (mark.floor ≤ mark.offset)
  World.setSelf { self with offset := mark.offset, floor := mark.floor }

end Arena
end TerseDsa
