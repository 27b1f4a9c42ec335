import TerseDsa.Alloc.Vtable
import Mathlib.Data.List.Basic

namespace TerseDsa

open Foundation AlVtable

/-!
# `alloc/slab`

Ten classes of small blocks, carved from chunks of the parent's; anything
larger goes to the parent.  Blocks carry no header, so that the class of a
block is found from the layout it comes back with.  Free blocks and chunks are
threaded through the memory behind the parent `P`.
-/

/-- `tda_SlabClass_`. -/
structure SizeClass where
  freeHead : Option Addr
  carve : Option Addr
  carveEnd : Option Addr

/-- `tda_Slab`; the link of a chunk stands for the chunk. -/
structure Slab (P : Type) where
  parent : Option (AlVtable P)
  chunks : Option Addr
  chunkCount : Nat
  smallBlocks : Nat
  largeBlocks : Nat
  classes : Nat -> SizeClass

/-- `tda_SlabStats`. -/
structure SlabStats where
  chunks : Nat
  chunkBytes : Nat
  smallBlocks : Nat
  largeBlocks : Nat

namespace Slab

variable {P : Type}

/-- `CLASS_SIZES`. -/
def classSizes : List Nat := [16, 32, 48, 64, 96, 128, 192, 256, 384, 512]

/-- `CLASS_COUNT`. -/
def classCount : Nat := classSizes.length

/-- `CLASS_SIZES[idx]`. -/
def classSize (idx : Nat) : Nat := classSizes[idx]?.getD 0

def chunkBytes : Nat := 4096
def chunkAlign : Nat := 512

/-- `CHUNK_ROOM`: the bytes before the link at the back of a chunk. -/
def chunkRoom : Nat := chunkBytes - Layout.ofPointer.size

/-- `chunk_layout`. -/
def chunkLayout : Layout := ⟨chunkBytes, chunkAlign⟩

/-- `= {}`: the state after `deinit`. -/
def inert : Slab P := ⟨none, none, 0, 0, 0, fun _ => ⟨none, none, none⟩⟩

/-- `ASSERT_SLAB`. -/
def assertSlab {S : Type} (self : Slab P) : Run S (AlVtable P) := Run.demand self.parent

/-- `tda_slab_stats`. -/
def stats {S : Type} (self : Slab P) : Run S SlabStats := do
  let _ ← assertSlab self
  return ⟨self.chunkCount, wrapMul self.chunkCount chunkBytes, self.smallBlocks, self.largeBlocks⟩

/-- `size & -size`. -/
def lowBit (size : Nat) : Nat := size &&& wrapSub 0 size

/-- The test of `class_of`. -/
def serves (layout : Layout) (size : Nat) : Bool :=
  decide (layout.size ≤ size) && decide (layout.align ≤ lowBit size)

/-- `class_of`: the first class that serves the layout, or `CLASS_COUNT`. -/
def classOf (layout : Layout) : Nat := classSizes.findIdx (serves layout)

/-- `stays_large`. -/
def staysLarge (old : Layout) (newSize : Nat) : Bool :=
  classOf old == classCount && classOf ⟨newSize, old.align⟩ == classCount

/-- `&self->classes_[idx]`, written. -/
def withClass (self : Slab P) (idx : Nat) (cls : SizeClass) : Slab P :=
  { self with classes := Function.update self.classes idx cls }

/-- `can_carve`. -/
def canCarve (cls : SizeClass) (size : Nat) : Bool :=
  match cls.carve, cls.carveEnd with
  | some start, some stop => decide (size ≤ wrapSub stop start)
  | _, _ => false

/-- `tda_slab_init`. -/
def init (parent : AlVtable P) : Slab P := { (inert : Slab P) with parent := some parent }

section Memory

variable [HasBytes P]

/-- `add_chunk`, for the class `idx`. -/
def addChunk (parent : AlVtable P) (self : Slab P) (idx : Nat) : Run P (Bool × Slab P) := do
  match ← allocate parent chunkLayout with
  | none => return (false, self)
  | some bytes =>
      let chunk := bytes + chunkRoom
      writeLink chunk self.chunks
      let self := { self with chunks := some chunk, chunkCount := self.chunkCount + 1 }
      return (true, self.withClass idx { self.classes idx with carve := some bytes, carveEnd := some chunk })

/-- The last lines of `carve`. -/
def takeCarve (self : Slab P) (idx size : Nat) : Run P (Option Addr × Slab P) := do
  let cls := self.classes idx
  let ptr ← Run.demand cls.carve
  return (some ptr, self.withClass idx { cls with carve := some (ptr + size) })

/-- `carve`. -/
def carve (parent : AlVtable P) (self : Slab P) (idx size : Nat) : Run P (Option Addr × Slab P) := do
  if canCarve (self.classes idx) size = true then
    takeCarve self idx size
  else do
    let (added, self) ← addChunk parent self idx
    if added = true then
      takeCarve self idx size
    else
      return (none, self)

/-- The small part of `slab_alloc`: a freed block first, else a fresh one. -/
def takeSmall (parent : AlVtable P) (self : Slab P) (idx : Nat) : Run P (Option Addr × Slab P) := do
  let cls := self.classes idx
  match cls.freeHead with
  | some head =>
      let next ← readLink head
      return (some head, self.withClass idx { cls with freeHead := next })
  | none => carve parent self idx (classSize idx)

/-- `slab_alloc`. -/
def alloc (layout : Layout) : Run (World (Slab P) P) (Option Addr) := do
  let self ← World.self
  let parent ← assertSlab self
  Run.require (0 < layout.size)
  let idx := classOf layout
  if idx = classCount then do
    match ← World.under (allocate parent layout) with
    | none => return none
    | some ptr =>
        World.setSelf { self with largeBlocks := self.largeBlocks + 1 }
        return some ptr
  else do
    let (ptr, self) ← World.under (takeSmall parent self idx)
    match ptr with
    | none =>
        World.setSelf self
        return none
    | some ptr =>
        World.setSelf { self with smallBlocks := self.smallBlocks + 1 }
        return some ptr

/-- `slab_resize`. -/
def resize (ptr : Addr) (old : Layout) (newSize : Nat) : Run (World (Slab P) P) Bool := do
  let self ← World.self
  let parent ← assertSlab self
  Run.require (0 < old.size ∧ 0 < newSize)
  if staysLarge old newSize = true then
    World.under (resizeInPlace parent ptr old newSize)
  else
    -- one class on both sides: the block already has the room
    return classOf old == classOf ⟨newSize, old.align⟩

/-- `slab_remap`. -/
def remap (ptr : Addr) (old : Layout) (newSize : Nat) : Run (World (Slab P) P) (Option Addr) := do
  let self ← World.self
  let parent ← assertSlab self
  Run.require (0 < old.size ∧ 0 < newSize)
  if staysLarge old newSize = true then
    World.under (moveByHook parent ptr old newSize)
  else
    return none

/-- `slab_dealloc`. -/
def dealloc (ptr : Addr) (layout : Layout) : Run (World (Slab P) P) Unit := do
  let self ← World.self
  let parent ← assertSlab self
  let idx := classOf layout
  if idx = classCount then do
    Run.require (0 < self.largeBlocks)
    World.setSelf { self with largeBlocks := self.largeBlocks - 1 }
    World.under (deallocate parent (some ptr) layout)
  else do
    let cls := self.classes idx
    Run.require (0 < self.smallBlocks)
    Run.require (some ptr ≠ cls.freeHead)
    World.under (writeLink ptr cls.freeHead)
    World.setSelf { self.withClass idx { cls with freeHead := some ptr } with
      smallBlocks := self.smallBlocks - 1 }

/-- `tda_slab_to_al`. -/
def toAl (P : Type) [HasBytes P] : AlVtable (World (Slab P) P) where
  alloc := alloc
  allocZeroed := none
  resize := some resize
  remap := some remap
  dealloc := dealloc

/-- The loop of `tda_slab_deinit`: every chunk goes back, its link read first. -/
def releaseChunks (parent : AlVtable P) (bound : Nat) (chunk : Option Addr) : Run P Unit :=
  Run.loop (fun chunk =>
    match chunk with
    | none => return .leave ()
    | some link => do
        let next ← readLink link
        deallocate parent (some (link - chunkRoom)) chunkLayout
        return .again next)
    (bound + 1) chunk

/-- `tda_slab_deinit`. -/
def deinit : Run (World (Slab P) P) Unit := do
  let self ← World.self
  match self.parent with
  | none => return ()
  | some parent =>
      World.under (releaseChunks parent self.chunkCount self.chunks)
      World.setSelf inert

end Memory
end Slab
end TerseDsa
