import TerseDsa.Slab.Model
import TerseDsa.Alloc.Parent

namespace TerseDsa

open Foundation AlVtable

/-!
# Programs over a slab

A program keeps the blocks it holds, each under its current layout, and writes
into them.  The invariant lists the chunks with how far each is carved, and for
every class what is on its free list: of what was carved for a class, a block is
either free or held.
-/

namespace Slab

variable {layout : Layout} {idx : Nat}

/-! ## Classes -/

/-- What the table of classes was chosen for. -/
theorem classSize_facts : forall idx, idx < classCount ->
    16 ≤ classSize idx ∧ classSize idx ≤ chunkRoom ∧ lowBit (classSize idx) ∣ classSize idx ∧
      lowBit (classSize idx) ∣ chunkAlign ∧ Layout.isAlign (lowBit (classSize idx)) = true := by
  decide

theorem classOf_le : classOf layout ≤ classCount := List.findIdx_le_length

/-- The class of a layout serves it. -/
theorem serves_classOf (small : classOf layout < classCount) :
    layout.size ≤ classSize (classOf layout) ∧
      layout.align ≤ lowBit (classSize (classOf layout)) := by
  have served : serves layout (classSize (classOf layout)) = true := by
    rw [classSize, List.getElem?_eq_getElem (show classOf layout < classSizes.length from small)]
    exact List.findIdx_getElem (w := small)
  simpa only [serves, Bool.and_eq_true, decide_eq_true_eq] using served

/-- Every multiple of the class from a chunk on is aligned for what the class serves. -/
theorem aligned_of_classOf (asked : layout.Asked) (small : classOf layout < classCount) {start k : Nat}
    (on_ : chunkAlign ∣ start) : layout.align ∣ start + k * classSize (classOf layout) := by
  rcases classSize_facts _ small with ⟨_, _, divides, chunk, isAlign⟩
  have low := Layout.isAlign_dvd_of_le asked.isAlign isAlign (serves_classOf small).2
  exact low.trans (Nat.dvd_add (chunk.trans on_) (Nat.dvd_mul_left_of_dvd divides k))

end Slab

/-- A chunk, the class it is carved for, and how many blocks were carved. -/
structure SlabChunk where
  start : Nat
  cls : Nat
  carved : Nat

namespace SlabChunk

open Slab

/-- Where the chunk's link is. -/
def link (chunk : SlabChunk) : Nat := chunk.start + chunkRoom

/-- The chunk as the parent has it out. -/
def entry (chunk : SlabChunk) : Nat × Layout := (chunk.start, chunkLayout)

/-- The blocks that were carved. -/
def cells (chunk : SlabChunk) : List Nat := starts chunk.start (classSize chunk.cls) chunk.carved

/-- The blocks that were carved, each with the class. -/
def marks (chunk : SlabChunk) : List (Nat × Nat) := chunk.cells.map fun addr => (addr, chunk.cls)

/-- A chunk in memory. -/
structure Live (chunk : SlabChunk) : Prop where
  cls : chunk.cls < classCount
  room : chunk.carved * classSize chunk.cls ≤ chunkRoom
  real : 0 < chunk.start
  fits : chunk.start + chunkBytes < sizeRange
  aligned : chunkAlign ∣ chunk.start

variable {chunk : SlabChunk} {addr : Nat}

theorem region_entry : Parent.region chunk.entry = ⟨chunk.start, chunkBytes⟩ := rfl

/-- The link lies at the back of the chunk. -/
theorem link_within : Region.Within ⟨chunk.link, Bytes.wordSize⟩ (Parent.region chunk.entry) := by
  have room : chunkRoom + Bytes.wordSize = chunkBytes := rfl
  rw [region_entry]
  unfold Region.Within Region.stop link
  dsimp only
  omega

theorem cell_within (live : Live chunk) (inside : addr ∈ chunk.cells) :
    Region.Within ⟨addr, classSize chunk.cls⟩ ⟨chunk.start, chunkRoom⟩ := by
  refine (starts_within inside).trans (Region.within_of_le ?_)
  rw [Nat.mul_comm]
  exact live.room

theorem cell_within_entry (live : Live chunk) (inside : addr ∈ chunk.cells) :
    Region.Within ⟨addr, classSize chunk.cls⟩ (Parent.region chunk.entry) :=
  (cell_within live inside).trans (Region.within_of_le (show chunkRoom ≤ chunkBytes by decide))

theorem cell_apart_link (live : Live chunk) (inside : addr ∈ chunk.cells) :
    Region.Apart ⟨addr, classSize chunk.cls⟩ ⟨chunk.link, Bytes.wordSize⟩ :=
  Or.inl (cell_within live inside).2

theorem cell_linkable (live : Live chunk) (inside : addr ∈ chunk.cells) : Bytes.Linkable addr := by
  have real := live.real
  have fits := live.fits
  have within := cell_within_entry live inside
  rw [region_entry] at within
  unfold Region.Within Region.stop at within
  dsimp only at within
  unfold sizeRange at fits
  exact ⟨by omega, by omega⟩

theorem link_linkable (live : Live chunk) : Bytes.Linkable chunk.link := by
  have real := live.real
  have fits := live.fits
  have room : chunkRoom ≤ chunkBytes := by decide
  unfold sizeRange at fits
  unfold link
  exact ⟨by omega, by omega⟩

end SlabChunk

/-- A block that a program holds, under its current layout. -/
structure SlabBlock where
  ptr : Nat
  layout : Layout
  deriving DecidableEq

namespace SlabBlock

open Slab

def region (block : SlabBlock) : Region := ⟨block.ptr, block.layout.size⟩

/-- The block goes to the parent. -/
def large (block : SlabBlock) : Bool := classOf block.layout == classCount

/-- The block as the parent has it out, if it is a large one. -/
def entry (block : SlabBlock) : Nat × Layout := (block.ptr, block.layout)

end SlabBlock

/-- The slab over its parent, the blocks a program holds, and what was carved so
far for which class. -/
structure SlabProgram where
  world : World (Slab Parent) Parent
  blocks : List SlabBlock
  carved : List (Nat × Nat)

namespace SlabProgram

open Slab

variable {α : Type}

def slab (program : SlabProgram) : Slab Parent := program.world.ctx

def parent (program : SlabProgram) : Parent := program.world.below

/-- Call the slab. -/
def call (run : Run (World (Slab Parent) Parent) α) : Run SlabProgram α :=
  Run.zoom SlabProgram.world (fun world program => { program with world := world }) run

/-- The block held at `ptr`. -/
def lookUp (ptr : Nat) : Run SlabProgram SlabBlock := do
  let program ← get
  Run.demand (program.blocks.find? fun block => block.ptr == ptr)

/-- A small block that was handed out while no block of its class was free has
just been carved. -/
def noted (before : Slab Parent) (addr : Nat) (layout : Layout) (carved : List (Nat × Nat)) :
    List (Nat × Nat) :=
  if classOf layout < classCount ∧ (before.classes (classOf layout)).freeHead = none then
    (addr, classOf layout) :: carved
  else
    carved

/-- Enter what was handed out. -/
def enter (before : Slab Parent) (ptr : Option Addr) (layout : Layout) : Run SlabProgram Unit :=
  match ptr with
  | none => return ()
  | some addr => modify fun program => { program with
      blocks := ⟨addr, layout⟩ :: program.blocks
      carved := noted before addr layout program.carved }

/-- The block now has another layout, at the same place. -/
def exchange (block : SlabBlock) (newSize : Nat) : Run SlabProgram Unit :=
  modify fun program => { program with
    blocks := ⟨block.ptr, ⟨newSize, block.layout.align⟩⟩ :: program.blocks.erase block }

/-- The block is held no more. -/
def drop (block : SlabBlock) : Run SlabProgram Unit :=
  modify fun program => { program with blocks := program.blocks.erase block }

/-- What a program may do with its slab and the blocks it holds. -/
inductive Act where
  | alloc (layout : Layout)
  | allocZeroed (layout : Layout)
  | resize (ptr newSize : Nat)
  | remap (ptr newSize : Nat)
  | realloc (ptr newSize : Nat)
  | reallocNull (align newSize : Nat)
  | dealloc (ptr : Nat)
  | write (addr : Nat) (byte : Byte)

namespace Act

/-- The hooks of the slab. -/
abbrev al : AlVtable (World (Slab Parent) Parent) := Slab.toAl Parent

def run : Act -> Run SlabProgram Unit
  | alloc layout => do
      let before ← get
      let ptr ← call (allocate al layout)
      enter before.slab ptr layout
  | allocZeroed layout => do
      let before ← get
      let ptr ← call (allocateZeroed al layout)
      enter before.slab ptr layout
  | resize ptr newSize => do
      let block ← lookUp ptr
      if ← call (resizeInPlace al ptr block.layout newSize) then
        exchange block newSize
  | remap ptr newSize => do
      let before ← get
      let block ← lookUp ptr
      match ← call (moveByHook al ptr block.layout newSize) with
      | none => return ()
      | some moved => do
          drop block
          enter before.slab (some moved) ⟨newSize, block.layout.align⟩
  | realloc ptr newSize => do
      let before ← get
      let block ← lookUp ptr
      match ← call (reallocate al (some ptr) block.layout newSize) with
      | none => if newSize = 0 then drop block
      | some moved =>
          if moved = ptr then
            exchange block newSize
          else do
            drop block
            enter before.slab (some moved) ⟨newSize, block.layout.align⟩
  | reallocNull align newSize => do
      let before ← get
      let ptr ← call (reallocate al none ⟨0, align⟩ newSize)
      enter before.slab ptr ⟨newSize, align⟩
  | dealloc ptr => do
      let block ← lookUp ptr
      call (deallocate al (some ptr) block.layout)
      drop block
  | write addr byte => call (setBytes addr 1 byte)

/-- The program holds the block. -/
def Holds (ptr : Nat) (program : SlabProgram) : Prop :=
  exists block, block ∈ program.blocks ∧ block.ptr = ptr

/-- What callers keep to. -/
def Allowed : Act -> SlabProgram -> Prop
  | alloc layout, _ | allocZeroed layout, _ => layout.Asked
  | resize ptr newSize, program | remap ptr newSize, program =>
      Holds ptr program ∧ 0 < newSize ∧ newSize < sizeRange
  | realloc ptr newSize, program => Holds ptr program ∧ newSize < sizeRange
  | reallocNull align newSize, _ => Layout.Asked ⟨newSize, align⟩
  | dealloc ptr, program => Holds ptr program
  | write addr _, program => exists block, block ∈ program.blocks ∧ block.region.Covers addr

end Act

/-! ## The invariant -/

/-- The large blocks. -/
def larges (blocks : List SlabBlock) : List SlabBlock := blocks.filter SlabBlock.large

/-- Where the blocks of one class are. -/
def heldOf (blocks : List SlabBlock) (idx : Nat) : List Nat :=
  (blocks.filter fun block => classOf block.layout == idx).map SlabBlock.ptr

/-- What was carved for one class. -/
def carvedFor (carved : List (Nat × Nat)) (idx : Nat) : List Nat :=
  (carved.filter fun mark => mark.2 == idx).map Prod.fst

/-- What the slab has from its parent. -/
def taken (chunks : List SlabChunk) (blocks : List SlabBlock) : List (Nat × Layout) :=
  chunks.map SlabChunk.entry ++ (larges blocks).map SlabBlock.entry

/-- The books of a program, under what is free in each class. -/
structure Books (blocks : List SlabBlock) (carved : List (Nat × Nat)) (chunks : List SlabChunk)
    (frees : Nat -> List Nat) : Prop where
  live : forall chunk, chunk ∈ chunks -> chunk.Live
  apart : (taken chunks blocks).Pairwise fun left right =>
    (Parent.region left).Apart (Parent.region right)
  logged : carved.Perm (chunks.flatMap SlabChunk.marks)
  divided : forall idx, idx < classCount ->
    (frees idx ++ heldOf blocks idx).Perm (carvedFor carved idx)
  distinct : (blocks.map SlabBlock.ptr).Nodup
  asked : forall block, block ∈ blocks -> block.layout.Asked ∧ 0 < block.layout.size
  aligned : forall block, block ∈ blocks -> block.layout.align ∣ block.ptr

/-- A class carves its newest chunk. -/
def Carves (cls : SizeClass) : Option SlabChunk -> Prop
  | none => cls.carve = none
  | some chunk => cls.carve = some (chunk.start + chunk.carved * classSize chunk.cls) ∧
      cls.carveEnd = some chunk.link

/-- How the books stand to the slab, whose parent has also other blocks out. -/
structure Invariant (program : SlabProgram) (others : List (Nat × Layout)) (chunks : List SlabChunk)
    (frees : Nat -> List Nat) : Prop where
  books : Books program.blocks program.carved chunks frees
  parent : program.slab.parent = some Parent.toAl
  threaded : Threaded program.parent.bytes program.slab.chunks (chunks.map SlabChunk.link)
  count : program.slab.chunkCount = chunks.length
  out : program.parent.out.Perm (taken chunks program.blocks ++ others)
  carves : forall idx, idx < classCount ->
    Carves (program.slab.classes idx) (chunks.find? fun chunk => chunk.cls == idx)
  free : forall idx, idx < classCount ->
    Threaded program.parent.bytes (program.slab.classes idx).freeHead (frees idx)
  smallCount : program.slab.smallBlocks = (program.blocks.filter fun block => !block.large).length
  largeCount : program.slab.largeBlocks = (larges program.blocks).length

end SlabProgram
end TerseDsa
