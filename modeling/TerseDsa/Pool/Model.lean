import TerseDsa.Alloc.Vtable
import TerseDsa.Core.Layout

namespace TerseDsa

open Foundation AlVtable

/-!
# `alloc/pool`

Blocks of one size in one array.  A free block holds the link to the next one,
in the memory `P` that the pool was made over; what callers write into their
blocks goes into that same memory.

The address of a block is computed inside of the array, where it does not wrap.
-/

/-- `tda_Pool`; over a caller's buffer there is no parent. -/
structure Pool (P : Type) where
  parent : Option (AlVtable P)
  data : Option Addr
  blockSize : Nat
  blockAlign : Nat
  blockCount : Nat
  used : Nat
  freeHead : Option Addr

/-- `tda_PoolStats`. -/
structure PoolStats where
  blockSize : Nat
  blockAlign : Nat
  blocks : Nat
  used : Nat
  free : Nat

namespace Pool

variable {P : Type}

/-- `= {}`: the state after `deinit`. -/
def inert : Pool P := ⟨none, none, 0, 0, 0, 0, none⟩

/-- `ASSERT_POOL`. -/
def Asserts (self : Pool P) : Prop :=
  self.data.isSome = true ∧ 0 < self.blockCount ∧ self.used ≤ self.blockCount

instance (self : Pool P) : Decidable self.Asserts := by
  unfold Asserts
  infer_instance

def assertPool {S : Type} (self : Pool P) : Run S Unit := Run.require self.Asserts

/-- `tda_pool_stats`. -/
def stats {S : Type} (self : Pool P) : Run S PoolStats := do
  assertPool self
  return ⟨self.blockSize, self.blockAlign, self.blockCount, self.used, wrapSub self.blockCount self.used⟩

/-! ## Blocks -/

/-- `ckd_block`: raised to what the free list needs, then rounded up so that blocks tile. -/
def ckdBlock (block : Layout) : Option Layout :=
  let align := if block.align > Layout.ofPointer.align then block.align else Layout.ofPointer.align
  let size := if block.size > Layout.ofPointer.size then block.size else Layout.ofPointer.size
  (alignCkdUp size align).map fun size => ⟨size, align⟩

/-- `array_layout`. -/
def arrayLayout (self : Pool P) : Layout :=
  ⟨wrapMul self.blockSize self.blockCount, self.blockAlign⟩

/-- `owns_block`. -/
def ownsBlock (self : Pool P) (data ptr : Addr) : Bool :=
  decide (data ≤ ptr) && decide (ptr < wrapAdd data (arrayLayout self).size) &&
    decide (wrapSub ptr data % self.blockSize = 0)

section Memory

variable [HasBytes P]

/-- `push_free`. -/
def pushFree (self : Pool P) (block : Addr) : Run P (Pool P) := do
  writeLink block self.freeHead
  return { self with freeHead := some block }

/-- The loop of `build_free_list`: the blocks below `idx`, the last one first. -/
def pushBelow (self : Pool P) (data : Addr) : (idx : Nat) -> Run P (Pool P)
  | 0 => return self
  | idx + 1 => do
      let self ← pushFree self (data + idx * self.blockSize)
      pushBelow self data idx

/-- `build_free_list`. -/
def buildFreeList (self : Pool P) : Run P (Pool P) := do
  let data ← Run.demand self.data
  pushBelow { self with freeHead := none } data self.blockCount

/-- `fill`. -/
def fill (parent : Option (AlVtable P)) (data : Addr) (block : Layout) (blockCount : Nat) :
    Run P (Pool P) := do
  Run.require (block.isType = true)
  Run.require (alignMeets data block.align = true)
  buildFreeList ⟨parent, some data, block.size, block.align, blockCount, 0, none⟩

/-! ## Lifetime -/

/-- `tda_pool_init_cap`. -/
def initCap (blockCount : Nat) (block : Layout) (parent : AlVtable P) :
    Run P (Status × Option (Pool P)) := do
  Run.require (0 < blockCount)
  Run.require (0 < block.size)
  Run.require (Layout.isAlign block.align = true)
  match ckdBlock block with
  | none => return (.errNoMem, none)
  | some block =>
      match block.ckdArray blockCount with
      | none => return (.errNoMem, none)
      | some dataLayout =>
          match ← allocate parent dataLayout with
          | none => return (.errNoMem, none)
          | some data => do
              let pool ← fill (some parent) data block blockCount
              return (.ok, some pool)

/-- `tda_pool_init_buf`. -/
def initBuf (buf : Addr) (cap : Nat) (block : Layout) : Run P (Status × Option (Pool P)) := do
  Run.require (buf ≠ 0)
  Run.require (0 < cap)
  Run.require (0 < block.size)
  Run.require (Layout.isAlign block.align = true)
  match ckdBlock block with
  | none => return (.errNoMem, none)
  | some block => do
      -- the blocks start on their own alignment, which may be past the buffer's
      let pad := alignPad buf block.align
      if pad > cap ∨ cap - pad < block.size then
        return (.errNoMem, none)
      let pool ← fill none (buf + pad) block ((cap - pad) / block.size)
      return (.ok, some pool)

/-- `tda_pool_deinit`. -/
def deinit (self : Pool P) : Run P (Pool P) := do
  match self.data with
  | none => return self
  | some data =>
      assertPool self
      match self.parent with
      | none => return inert
      | some parent =>
          deallocate parent (some data) (arrayLayout self)
          return inert

/-! ## Hooks -/

/-- `pool_alloc`. -/
def alloc (layout : Layout) : Run (World (Pool P) P) (Option Addr) := do
  let self ← World.self
  assertPool self
  Run.require (0 < layout.size)
  Run.require (layout.align ≤ self.blockAlign)
  if layout.size > self.blockSize then
    return none
  match self.freeHead with
  | none => return none
  | some node =>
      let next ← readLink node
      World.setSelf { self with freeHead := next, used := self.used + 1 }
      return some node

/-- `pool_resize`. -/
def resize (ptr : Addr) (old : Layout) (newSize : Nat) : Run (World (Pool P) P) Bool := do
  let self ← World.self
  assertPool self
  Run.require (0 < old.size ∧ 0 < newSize)
  Run.require (old.size ≤ self.blockSize ∧ old.align ≤ self.blockAlign)
  Run.require (ownsBlock self (← Run.demand self.data) ptr = true)
  return decide (newSize ≤ self.blockSize)

/-- `pool_dealloc`. -/
def dealloc (ptr : Addr) (layout : Layout) : Run (World (Pool P) P) Unit := do
  let self ← World.self
  assertPool self
  Run.require (layout.size ≤ self.blockSize ∧ layout.align ≤ self.blockAlign)
  Run.require (ownsBlock self (← Run.demand self.data) ptr = true)
  Run.require (0 < self.used)
  Run.require (some ptr ≠ self.freeHead)
  let self ← World.under (pushFree self ptr)
  World.setSelf { self with used := self.used - 1 }

/-- `tda_pool_to_al`. -/
def toAl (P : Type) [HasBytes P] : AlVtable (World (Pool P) P) where
  alloc := alloc
  allocZeroed := none
  resize := some resize
  remap := none
  dealloc := dealloc

/-- `tda_pool_reset`. -/
def reset : Run (World (Pool P) P) Unit := do
  let self ← World.self
  assertPool self
  let self ← World.under (buildFreeList { self with used := 0 })
  World.setSelf self

end Memory
end Pool
end TerseDsa
