import TerseDsa.Debug.Model
import TerseDsa.Debug.Slots
import TerseDsa.Alloc.Parent

namespace TerseDsa

open Foundation AlVtable

/-!
# Programs over a debug allocator

A program notes which blocks were handed out and not given back, each with its
layout and the number of the request that made it, all numbers so far, and the
most bytes that were out at once.  It may give back or resize whatever it likes,
and write wherever no block lies that was given back.
-/

namespace Debug

variable {P : Type}

/-- A block as the parent has it out: the guard is part of it. -/
def guarded (ptr : Nat) (layout : Layout) : Nat × Layout := (ptr, ⟨layout.size + guardSize, layout.align⟩)

/-- The blocks that are out at the parent's, held or waiting. -/
def kept (blocks : List BlockRecord) (waiting : List FreedBlock) : List (Nat × Layout) :=
  blocks.map (fun block => guarded block.addr block.layout) ++
    waiting.map fun freed => guarded freed.ptr freed.layout

/-- The bytes that were asked for. -/
def total (blocks : List BlockRecord) : Nat := (blocks.map fun block => block.layout.size).sum

end Debug

/-- The debug allocator, and what a program notes about it. -/
structure DebugProgram where
  world : Debug.Worlds Parent
  blocks : List BlockRecord
  serials : List Nat
  peak : Nat

namespace DebugProgram

open Debug

variable {α : Type}

def debug (program : DebugProgram) : Debug Parent := program.world.ctx

def parent (program : DebugProgram) : Parent := program.world.below.below

/-- Call the allocator. -/
def call (run : Run (Worlds Parent) α) : Run DebugProgram α :=
  Run.zoom DebugProgram.world (fun world program => { program with world := world }) run

/-- Note what was handed out, under the number of the last request. -/
def enter (ptr : Option Addr) (layout : Layout) : Run DebugProgram Unit :=
  match ptr with
  | none => return ()
  | some addr => modify fun program =>
      let blocks := ⟨addr, layout, program.debug.requests⟩ :: program.blocks
      { program with
        blocks := blocks
        serials := program.debug.requests :: program.serials
        peak := max program.peak (total blocks) }

/-- The block at `ptr` was given back. -/
def drop (ptr : Nat) : Run DebugProgram Unit :=
  modify fun program => { program with blocks := program.blocks.eraseP fun block => block.addr == ptr }

/-- What a program may do. -/
inductive Act where
  | alloc (layout : Layout)
  | allocZeroed (layout : Layout)
  | realloc (ptr : Nat) (old : Layout) (newSize : Nat)
  | reallocNull (align newSize : Nat)
  | dealloc (ptr : Nat) (layout : Layout)
  | flushQuarantine
  | failAfter (count : Nat)
  | write (addr : Nat) (byte : Byte)

namespace Act

/-- The hooks of the debug allocator. -/
abbrev al : AlVtable (Worlds Parent) := Debug.toAl Parent

def run : Act -> Run DebugProgram Unit
  | alloc layout => do
      let ptr ← call (allocate al layout)
      enter ptr layout
  | allocZeroed layout => do
      let ptr ← call (allocateZeroed al layout)
      enter ptr layout
  | realloc ptr old newSize => do
      match ← call (reallocate al (some ptr) old newSize) with
      | none => if newSize = 0 then drop ptr
      | some moved => do
          enter (some moved) ⟨newSize, old.align⟩
          drop ptr
  | reallocNull align newSize => do
      let ptr ← call (reallocate al none ⟨0, align⟩ newSize)
      enter ptr ⟨newSize, align⟩
  | dealloc ptr layout => do
      call (deallocate al (some ptr) layout)
      drop ptr
  | flushQuarantine => call (Debug.orAbort Debug.flushQuarantine)
  | failAfter count => call (Debug.setFailAfter count)
  | write addr byte => call (setBytes addr 1 byte)

/-- The arguments are of their types, and no block is written after it was given back. -/
def Allowed : Act -> DebugProgram -> Prop
  | alloc layout, _ | allocZeroed layout, _ => layout.Asked
  | realloc ptr old newSize, _ => 0 < ptr ∧ old.Asked ∧ 0 < old.size ∧ newSize < sizeRange
  | reallocNull align newSize, _ => Layout.Asked ⟨newSize, align⟩
  | dealloc ptr layout, _ => 0 < ptr ∧ layout.Asked ∧ 0 < layout.size
  | flushQuarantine, _ => True
  | failAfter count, _ => count < 2 ^ 64
  | write addr _, program => forall freed, freed ∈ program.debug.waiting ->
      ¬ (Parent.region (guarded freed.ptr freed.layout)).Covers addr

/-- The act is not the `2 ^ 64`th request; nothing is requested where no bytes are wanted. -/
def Counted : Act -> DebugProgram -> Prop
  | alloc layout, program | allocZeroed layout, program => 0 < layout.size -> program.debug.requests + 1 < 2 ^ 64
  | realloc _ _ newSize, program | reallocNull _ newSize, program =>
      0 < newSize -> program.debug.requests + 1 < 2 ^ 64
  | _, _ => True

end Act

/-! ## The invariant -/

/-- How a program's notes stand to the allocator, whose parent has also other
blocks out. -/
structure Invariant (program : DebugProgram) (others : List (Nat × Layout)) : Prop where
  parent : program.debug.parent = some Parent.toAl
  breakAt : program.debug.breakAt = 0
  requests : program.debug.requests < 2 ^ 64
  table : program.debug.table.Holds program.blocks
  ring : program.debug.quarantineLen ≤ quarantineCap
  out : program.parent.out.Perm (kept program.blocks program.debug.waiting ++ others)
  apart : (kept program.blocks program.debug.waiting).Pairwise fun left right =>
    (Parent.region left).Apart (Parent.region right)
  placed : forall block, block ∈ kept program.blocks program.debug.waiting ->
    0 < block.1 ∧ block.1 + block.2.size < sizeRange ∧ Layout.isAlign block.2.align = true
  made : forall block, block ∈ program.blocks -> block.layout.Asked ∧ 0 < block.layout.size
  filled : forall freed, freed ∈ program.debug.waiting -> forall addr,
    (Parent.region (guarded freed.ptr freed.layout)).Covers addr ->
    program.parent.bytes addr = fillFreed
  liveBytes : program.debug.liveBytes = total program.blocks
  peak : program.debug.peakBytes = program.peak
  serials : program.serials.Pairwise fun later earlier => earlier < later
  counted : forall serial, serial ∈ program.serials -> serial ≤ program.debug.requests
  numbered : forall block, block ∈ program.blocks -> block.serial ∈ program.serials

/-! ## The quarantine -/

variable {P : Type} {debug : Debug P} {freed : FreedBlock}

theorem waiting_length : debug.waiting.length = debug.quarantineLen := by
  rw [waiting, List.length_map, List.length_range]

theorem waiting_pop {len : Nat} (more : debug.quarantineLen = len + 1) :
    debug.waiting = debug.quarantined 0 :: waiting { debug with
      quarantineHead := (debug.quarantineHead + 1) % quarantineCap
      quarantineLen := len } := by
  unfold waiting
  rw [more, List.range_succ_eq_map, List.map_cons, List.map_map]
  congr 1
  apply List.map_congr_left
  intro i _
  unfold quarantined
  have same : (debug.quarantineHead + (i + 1)) % quarantineCap =
      ((debug.quarantineHead + 1) % quarantineCap + i) % quarantineCap := by
    rw [Nat.mod_add_mod]
    congr 1
    omega
  exact congrArg debug.quarantine same

theorem waiting_push (room : debug.quarantineLen < quarantineCap) :
    waiting { debug with
      quarantineLen := debug.quarantineLen + 1
      quarantine := Function.update debug.quarantine
        ((debug.quarantineHead + (debug.quarantineLen + 1 - 1)) % quarantineCap) freed } =
      debug.waiting ++ [freed] := by
  unfold waiting
  dsimp only
  rw [List.range_succ, List.map_append, List.map_singleton]
  congr 1
  · apply List.map_congr_left
    intro i inside
    have before := List.mem_range.mp inside
    unfold quarantined
    dsimp only
    rw [Function.update_of_ne]
    intro same
    have equal := steps_inj (Nat.lt_trans before room) (by omega) same
    omega
  · unfold quarantined
    rw [Nat.add_sub_cancel]
    dsimp only
    rw [Function.update_self]

/-! ## Bytes -/

theorem allEqual_iff {bytes : Bytes} {ptr n : Nat} {fill : Byte} :
    allEqual bytes ptr n fill = true <->
      forall addr, Region.Covers ⟨ptr, n⟩ addr -> bytes addr = fill := by
  unfold allEqual Region.Covers Region.stop
  simp only [List.all_eq_true, List.mem_range, beq_iff_eq]
  constructor
  · rintro all addr ⟨low, high⟩
    have same := all (addr - ptr) (by omega)
    rwa [Nat.add_sub_cancel' low] at same
  · intro all i inside
    exact all (ptr + i) ⟨Nat.le_add_right _ _, by omega⟩

theorem ckdParentLayout_eq {layout : Layout} (fits : layout.size + guardSize < sizeRange) :
    ckdParentLayout layout = some ⟨layout.size + guardSize, layout.align⟩ := by
  rw [ckdParentLayout, ckdAdd, if_pos fits]
  rfl

theorem mem_kept_block {blocks : List BlockRecord} {waiting : List FreedBlock} {block : BlockRecord}
    (inside : block ∈ blocks) : guarded block.addr block.layout ∈ kept blocks waiting :=
  List.mem_append_left _ (List.mem_map_of_mem inside)

theorem mem_kept_freed {blocks : List BlockRecord} {waiting : List FreedBlock}
    (inside : freed ∈ waiting) : guarded freed.ptr freed.layout ∈ kept blocks waiting :=
  List.mem_append_right _ (List.mem_map_of_mem inside)

end DebugProgram
end TerseDsa
