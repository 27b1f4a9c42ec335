import TerseDsa.Arena.Model
import Mathlib.Data.List.Nodup

namespace TerseDsa

open Foundation Run

/-!
# Blocks of an arena

What the hooks do to the cursor, and a program that keeps what it was handed
out.  Blocks are numbered as they are handed out; a mark remembers which number
was next, so that a rewind can tell the blocks handed out since.
-/

namespace Arena

variable {P : Type} {world : World (Arena P) P} {data ptr : Nat} {layout old : Layout}
  {newSize : Nat}

/-- An arena over `cap` bytes from `data` on.  The address behind them exists. -/
structure Live (arena : Arena P) (data : Nat) : Prop where
  data_eq : arena.data = some data
  base : 0 < data
  room : data + arena.cap < sizeRange
  cap : 0 < arena.cap
  floor : arena.floor ≤ arena.offset
  offset : arena.offset ≤ arena.cap

namespace Live

variable {arena : Arena P}

theorem asserts (live : Live arena data) : arena.Asserts :=
  ⟨by rw [live.data_eq]; rfl, live.cap, live.floor, live.offset⟩

theorem cursor (live : Live arena data) : wrapAdd data arena.offset = data + arena.offset := by
  have room := live.room
  have offset := live.offset
  exact wrapAdd_eq (by omega)

/-- The bytes that a block of the layout is padded by. -/
def pad (arena : Arena P) (data align : Nat) : Nat := alignPad (data + arena.offset) align

theorem moved {offset floor : Nat} (live : Live arena data) (low : floor ≤ offset)
    (inside : offset ≤ arena.cap) : Live { arena with offset := offset, floor := floor } data :=
  ⟨live.data_eq, live.base, live.room, live.cap, low, inside⟩

end Live

theorem ends_assertArena {arena : Arena P} (live : Live arena data) {S : Type} {s : S}
    {post : Unit -> S -> Prop} : Ends (assertArena arena) s post <-> post () s := by
  unfold assertArena
  rw [ends_require]
  exact ⟨And.right, fun after => ⟨live.asserts, after⟩⟩

theorem blockEnd_eq {arena : Arena P} (live : Live arena data) (start size : Nat) :
    blockEnd arena start size =
      if start + size ≤ arena.cap then some (start + size) else none := by
  have room := live.room
  unfold blockEnd ckdAdd
  by_cases fits : start + size < sizeRange
  · simp only [if_pos fits, Option.bind_some]
  · have beyond : ¬ start + size ≤ arena.cap := by omega
    simp only [if_neg fits, if_neg beyond, Option.bind_none]

/-- The hook answers exactly when the padded block fits. -/
theorem ends_alloc (live : Live world.ctx data) (asked : layout.Asked) (some_ : 0 < layout.size)
    {post : Option Addr -> World (Arena P) P -> Prop}
    (refused : world.ctx.cap < world.ctx.offset + Live.pad world.ctx data layout.align + layout.size ->
      post none world)
    (granted : world.ctx.offset + Live.pad world.ctx data layout.align + layout.size ≤ world.ctx.cap ->
      post (some (data + (world.ctx.offset + Live.pad world.ctx data layout.align)))
        { world with ctx := { world.ctx with
          offset := world.ctx.offset + Live.pad world.ctx data layout.align + layout.size } }) :
    Ends (alloc layout) world post := by
  have room := live.room
  have base := live.base
  have cursor : data + world.ctx.offset ≠ 0 := by omega
  simp only [alloc, ends_bind, World.ends_self, ends_assertArena live, ends_require, some_,
    true_and, live.data_eq, ends_demand_some, live.cursor, cursor, ne_eq, not_false_eq_true,
    asked.isAlign]
  have pad : alignPad (data + world.ctx.offset) layout.align = Live.pad world.ctx data layout.align := rfl
  rw [pad]
  by_cases fits : world.ctx.offset + Live.pad world.ctx data layout.align < sizeRange
  · simp only [ckdAdd, if_pos fits, blockEnd_eq live]
    by_cases inside :
        world.ctx.offset + Live.pad world.ctx data layout.align + layout.size ≤ world.ctx.cap
    · simp only [if_pos inside, ends_bind, World.ends_setSelf, ends_pure]
      rw [wrapAdd_eq (by omega), ← live.data_eq]
      exact granted inside
    · simp only [if_neg inside, ends_pure]
      exact refused (Nat.lt_of_not_le inside)
  · simp only [ckdAdd, if_neg fits, ends_pure]
    exact refused (by omega)

/-- A block inside of what was handed out resizes in place as the last one, or
shrinks, or stays as it is. -/
theorem ends_resize (live : Live world.ctx data) (some_ : 0 < old.size) (wanted : 0 < newSize)
    (above : data ≤ ptr) (inside : ptr + old.size ≤ data + world.ctx.offset)
    {post : Bool -> World (Arena P) P -> Prop}
    (last : ptr + old.size = data + world.ctx.offset -> data + world.ctx.floor ≤ ptr ->
      ptr - data + newSize ≤ world.ctx.cap ->
      post true { world with ctx := { world.ctx with offset := ptr - data + newSize } })
    (shrunk : newSize ≤ old.size -> post true world) (refused : post false world) :
    Ends (resize ptr old newSize) world post := by
  have room := live.room
  have offset := live.offset
  have floor := live.floor
  have start : wrapSub ptr data = ptr - data := wrapSub_eq (by omega) above
  have rest : wrapSub world.ctx.offset (ptr - data) = world.ctx.offset - (ptr - data) :=
    wrapSub_eq (by omega) (by omega)
  have owns : ownsBlock world.ctx data ptr old.size = true := by
    simp only [ownsBlock, start, rest, Bool.and_eq_true, decide_eq_true_eq]
    exact ⟨⟨above, by omega⟩, by omega⟩
  have end_ : wrapAdd (ptr - data) old.size = ptr - data + old.size := wrapAdd_eq (by omega)
  simp only [resize, ends_bind, World.ends_self, ends_assertArena live, ends_require, some_,
    wanted, and_self, true_and, live.data_eq, ends_demand_some, owns, isLastBlock, blockStart,
    start, end_, beq_iff_eq, blockEnd_eq live]
  by_cases isLast : ptr - data + old.size = world.ctx.offset ∧ world.ctx.floor ≤ ptr - data
  · rw [if_pos isLast]
    by_cases fits : ptr - data + newSize ≤ world.ctx.cap
    · simp only [if_pos fits, ends_bind, World.ends_setSelf, ends_pure]
      rw [← live.data_eq]
      exact last (by omega) (by omega) fits
    · simp only [if_neg fits, ends_pure]
      exact refused
  · simp only [if_neg isLast, ends_pure]
    by_cases less : newSize ≤ old.size
    · rw [decide_eq_true less]
      exact shrunk less
    · rw [decide_eq_false less]
      exact refused

end Arena

/-!
## Programs over an arena

A program keeps the blocks it was handed out and the marks it took.  A block
that was given back, or left behind by a move, stays in the books, since the
arena frees nothing per block; a rewind or a reset takes its blocks out.  The
invariant places all blocks in the books, in the order they were handed out.
-/

/-- A block that was handed out, under its current layout.  It is `held` until
it is given back. -/
structure ArenaBlock where
  serial : Nat
  ptr : Nat
  layout : Layout
  held : Bool

namespace ArenaBlock

def region (block : ArenaBlock) : Region := ⟨block.ptr, block.layout.size⟩

def stop (block : ArenaBlock) : Nat := block.ptr + block.layout.size

/-- The block at its new size. -/
def sized (block : ArenaBlock) (newSize : Nat) : ArenaBlock :=
  { block with layout := { block.layout with size := newSize } }

/-- The block, given back. -/
def dropped (block : ArenaBlock) : ArenaBlock := { block with held := false }

end ArenaBlock

/-- The arena, the books of a program, the marks with the latest first, each
with the number that was next then, and the number that is next now. -/
structure ArenaProgram (P : Type) where
  world : World (Arena P) P
  blocks : List ArenaBlock
  marks : List (ArenaMark × Nat)
  next : Nat

namespace ArenaProgram

variable {P α : Type}

def arena (program : ArenaProgram P) : Arena P := program.world.ctx

/-- Call the arena. -/
def call (run : Run (World (Arena P) P) α) : Run (ArenaProgram P) α :=
  zoom ArenaProgram.world (fun world program => { program with world := world }) run

/-- Enter what was handed out. -/
def enter (ptr : Option Addr) (layout : Layout) : Run (ArenaProgram P) Unit :=
  match ptr with
  | none => return ()
  | some addr => modify fun program => { program with
      blocks := program.blocks ++ [⟨program.next, addr, layout, true⟩]
      next := program.next + 1 }

/-- Change the entry of one block. -/
def amend (serial : Nat) (change : ArenaBlock -> ArenaBlock) : Run (ArenaProgram P) Unit :=
  modify fun program => { program with
    blocks := program.blocks.map fun block => if block.serial = serial then change block else block }

/-- The entry of a block that is held. -/
def lookUp (serial : Nat) : Run (ArenaProgram P) ArenaBlock := do
  let program ← get
  demand (program.blocks.find? fun block => decide (block.serial = serial) && block.held)

/-- What a program may do with its arena. -/
inductive Act where
  | alloc (layout : Layout)
  | allocZeroed (layout : Layout)
  | resize (serial newSize : Nat)
  | realloc (serial newSize : Nat)
  | reallocNull (align newSize : Nat)
  | dealloc (serial : Nat)
  | mark
  /-- To the mark before which so many later ones were taken. -/
  | rewind (skipped : Nat)
  | reset

namespace Act

variable [HasBytes P]

def run : Act -> Run (ArenaProgram P) Unit
  | alloc layout => do
      let ptr ← call (AlVtable.allocate (Arena.toAl P) layout)
      enter ptr layout
  | allocZeroed layout => do
      let ptr ← call (AlVtable.allocateZeroed (Arena.toAl P) layout)
      enter ptr layout
  | resize serial newSize => do
      let block ← lookUp serial
      if ← call (AlVtable.resizeInPlace (Arena.toAl P) block.ptr block.layout newSize) then
        amend serial fun block => block.sized newSize
  | realloc serial newSize => do
      let block ← lookUp serial
      match ← call (AlVtable.reallocate (Arena.toAl P) (some block.ptr) block.layout newSize) with
      | none =>
          if newSize = 0 then
            amend serial ArenaBlock.dropped
      | some addr =>
          if addr = block.ptr then
            amend serial fun block => block.sized newSize
          else do
            amend serial ArenaBlock.dropped
            enter (some addr) ⟨newSize, block.layout.align⟩
  | reallocNull align newSize => do
      let ptr ← call (AlVtable.reallocate (Arena.toAl P) none ⟨0, align⟩ newSize)
      enter ptr ⟨newSize, align⟩
  | dealloc serial => do
      let block ← lookUp serial
      call (AlVtable.deallocate (Arena.toAl P) (some block.ptr) block.layout)
      amend serial ArenaBlock.dropped
  | mark => do
      let saved ← call Arena.mark
      modify fun program => { program with marks := (saved, program.next) :: program.marks }
  | rewind skipped => do
      let program ← get
      let (saved, serial) ← demand program.marks[skipped]?
      call (Arena.rewind saved)
      modify fun program => { program with
        blocks := program.blocks.filter fun block => decide (block.serial < serial)
        marks := program.marks.drop (skipped + 1) }
  | reset => do
      call Arena.reset
      modify fun program => { program with blocks := [], marks := [] }

/-- The program holds a block of that number. -/
def Holds (serial : Nat) (program : ArenaProgram P) : Prop :=
  exists block, block ∈ program.blocks ∧ block.serial = serial ∧ block.held = true

/-- What callers keep to. -/
def Allowed : Act -> ArenaProgram P -> Prop
  | alloc layout, _ | allocZeroed layout, _ => layout.Asked
  | resize serial newSize, program => Holds serial program ∧ 0 < newSize ∧ newSize < sizeRange
  | realloc serial newSize, program => Holds serial program ∧ newSize < sizeRange
  | reallocNull align newSize, _ => Layout.Asked ⟨newSize, align⟩
  | dealloc serial, program => Holds serial program
  | mark, _ | reset, _ => True
  | rewind skipped, program => skipped < program.marks.length

end Act

/-! ## The invariant -/

/-- A block lies in what was handed out, on its alignment. -/
structure Placed (data offset : Nat) (block : ArenaBlock) : Prop where
  asked : block.layout.Asked
  some_ : 0 < block.layout.size
  above : data ≤ block.ptr
  inside : block.stop ≤ data + offset
  aligned : block.layout.align ∣ block.ptr

/-- The floor is the offset of the latest mark, and each mark keeps the floor
below it. -/
def Floors : (floor : Nat) -> List (ArenaMark × Nat) -> Prop
  | floor, [] => floor = 0
  | floor, (mark, _) :: rest => floor = mark.offset ∧ mark.floor ≤ mark.offset ∧ Floors mark.floor rest

/-- A mark divides the blocks into those before and those after it. -/
def Divides (data : Nat) (mark : ArenaMark × Nat) (block : ArenaBlock) : Prop :=
  (block.serial < mark.2 -> block.stop ≤ data + mark.1.offset) ∧
    (mark.2 ≤ block.serial -> data + mark.1.offset ≤ block.ptr)

/-- How the books and the marks of a program stand to its arena. -/
structure Invariant (program : ArenaProgram P) (data : Nat) : Prop where
  live : Arena.Live program.arena data
  placed : forall block, block ∈ program.blocks -> Placed data program.arena.offset block
  ordered : program.blocks.Pairwise fun left right => left.stop ≤ right.ptr
  serials : program.blocks.Pairwise fun left right => left.serial < right.serial
  recent : forall block, block ∈ program.blocks -> block.serial < program.next
  floors : Floors program.arena.floor program.marks
  taken : forall mark, mark ∈ program.marks -> mark.2 ≤ program.next
  divided : forall mark, mark ∈ program.marks -> forall block, block ∈ program.blocks ->
    Divides data mark block

variable {program : ArenaProgram P} {data floor : Nat} {block other : ArenaBlock}
  {marks : List (ArenaMark × Nat)} {world : World (Arena P) P}

theorem Floors.le (floors : Floors floor marks) {mark : ArenaMark × Nat} (inside : mark ∈ marks) :
    mark.1.offset ≤ floor := by
  induction marks generalizing floor with
  | nil => exact absurd inside List.not_mem_nil
  | cons latest rest ih =>
      rcases floors with ⟨same, low, below⟩
      rcases List.mem_cons.mp inside with rfl | later
      · exact Nat.le_of_eq same.symm
      · have step := ih below later
        omega

/-- Below each mark the floors go on. -/
theorem Floors.drop (floors : Floors floor marks) {skipped : Nat} {mark : ArenaMark × Nat}
    (at_ : marks[skipped]? = some mark) :
    mark.1.floor ≤ mark.1.offset ∧ Floors mark.1.floor (marks.drop (skipped + 1)) := by
  induction marks generalizing floor skipped with
  | nil => cases at_
  | cons latest rest ih =>
      rcases floors with ⟨same, low, below⟩
      cases skipped with
      | zero =>
          cases at_
          exact ⟨low, below⟩
      | succ skipped => exact ih below at_

namespace Invariant

/-- A block of the books is known by its number. -/
theorem unique (invariant : Invariant program data) (mine : block ∈ program.blocks)
    (also : other ∈ program.blocks) (same : block.serial = other.serial) : block = other := by
  have distinct : (program.blocks.map ArenaBlock.serial).Nodup :=
    List.pairwise_map.mpr (invariant.serials.imp fun below => Nat.ne_of_lt below)
  exact List.inj_on_of_nodup_map distinct mine also same

theorem apart (invariant : Invariant program data) (mine : block ∈ program.blocks)
    (also : other ∈ program.blocks) (different : block.serial ≠ other.serial) :
    block.region.Apart other.region := by
  rcases List.mem_iff_append.mp mine with ⟨before, after, split_⟩
  have ordered := invariant.ordered
  rw [split_] at ordered also
  rcases List.pairwise_append.mp ordered with ⟨_, rest, front⟩
  have behind := (List.pairwise_cons.mp rest).1
  rcases List.mem_append.mp also with early | late
  · exact Or.inr (front other early block List.mem_cons_self)
  · rcases List.mem_cons.mp late with rfl | later
    · exact absurd rfl different
    · exact Or.inl (behind other later)

/-- Entries have changed and the cursor may have moved: each block starts where it
did, and has grown only if it was the last one and not below the floor. -/
theorem reshaped (invariant : Invariant program data) {offset : Nat} (change : ArenaBlock -> ArenaBlock)
    (live : Arena.Live { program.arena with offset := offset } data)
    (placed : forall block, block ∈ program.blocks -> Placed data offset (change block))
    (serial : forall block, block ∈ program.blocks -> (change block).serial = block.serial)
    (ptr : forall block, block ∈ program.blocks -> (change block).ptr = block.ptr)
    (grown : forall block, block ∈ program.blocks -> (change block).stop ≤ block.stop ∨
      (block.stop = data + program.arena.offset ∧ data + program.arena.floor ≤ block.ptr)) :
    Invariant { program with
      world := { program.world with ctx := { program.arena with offset := offset } }
      blocks := program.blocks.map change } data := by
  have split_ : forall {block : ArenaBlock}, block ∈ program.blocks.map change ->
      exists old, old ∈ program.blocks ∧ change old = block := List.mem_map.mp
  constructor
  · exact live
  · intro block inside
    rcases split_ inside with ⟨old, member, rfl⟩
    exact placed old member
  · apply List.pairwise_map.mpr
    refine invariant.ordered.imp_of_mem ?_
    intro left right leftIn rightIn before
    rw [ptr right rightIn]
    rcases grown left leftIn with less | ⟨last, _⟩
    · exact Nat.le_trans less before
    · -- nothing lies behind the last block
      have behind := (invariant.placed right rightIn).inside
      have some_ := (invariant.placed right rightIn).some_
      unfold ArenaBlock.stop at *
      omega
  · apply List.pairwise_map.mpr
    refine invariant.serials.imp_of_mem ?_
    intro left right leftIn rightIn before
    rw [serial left leftIn, serial right rightIn]
    exact before
  · intro block inside
    rcases split_ inside with ⟨old, member, rfl⟩
    rw [serial old member]
    exact invariant.recent old member
  · exact invariant.floors
  · exact invariant.taken
  · intro mark taken block inside
    rcases split_ inside with ⟨old, member, rfl⟩
    have divided := invariant.divided mark taken old member
    rw [Divides, serial old member, ptr old member]
    refine ⟨fun before => ?_, divided.2⟩
    rcases grown old member with less | ⟨_, above⟩
    · exact Nat.le_trans less (divided.1 before)
    · -- a block above the floor is above every mark
      have low := invariant.floors.le taken
      have some_ := (invariant.placed old member).some_
      have below := divided.1 before
      unfold ArenaBlock.stop at below
      omega

/-- The arena has not changed: what it is built on may have. -/
theorem beneath (invariant : Invariant program data) (same : world.ctx = program.arena) :
    Invariant { program with world := world } data := by
  cases world with
  | mk ctx below =>
      cases same
      exact ⟨invariant.live, invariant.placed, invariant.ordered, invariant.serials,
        invariant.recent, invariant.floors, invariant.taken, invariant.divided⟩

/-- A block was handed out behind all others. -/
theorem entered (invariant : Invariant program data) {start : Nat} {layout : Layout}
    (asked : layout.Asked) (some_ : 0 < layout.size) (behind : program.arena.offset ≤ start)
    (fits : start + layout.size ≤ program.arena.cap) (aligned : layout.align ∣ data + start) :
    Invariant { program with
      world := { program.world with ctx := { program.arena with offset := start + layout.size } }
      blocks := program.blocks ++ [⟨program.next, data + start, layout, true⟩]
      next := program.next + 1 } data := by
  have live := invariant.live
  have floor := live.floor
  constructor
  · exact live.moved (by omega) fits
  · intro block inside
    rcases List.mem_append.mp inside with old | new
    · have placed := invariant.placed block old
      have room := placed.inside
      exact ⟨placed.asked, placed.some_, placed.above, by dsimp only [arena] at room behind ⊢; omega, placed.aligned⟩
    · cases List.mem_singleton.mp new
      refine ⟨asked, some_, Nat.le_add_right _ _, ?_, aligned⟩
      unfold ArenaBlock.stop
      exact Nat.le_of_eq (Nat.add_assoc _ _ _)
  · apply List.pairwise_append.mpr
    refine ⟨invariant.ordered, List.pairwise_singleton _ _, ?_⟩
    intro left old right new
    cases List.mem_singleton.mp new
    have room := (invariant.placed left old).inside
    dsimp only
    omega
  · apply List.pairwise_append.mpr
    refine ⟨invariant.serials, List.pairwise_singleton _ _, ?_⟩
    intro left old right new
    cases List.mem_singleton.mp new
    exact invariant.recent left old
  · intro block inside
    rcases List.mem_append.mp inside with old | new
    · exact Nat.lt_succ_of_lt (invariant.recent block old)
    · cases List.mem_singleton.mp new
      exact Nat.lt_succ_self _
  · exact invariant.floors
  · exact fun mark taken => Nat.le_succ_of_le (invariant.taken mark taken)
  · intro mark taken block inside
    rcases List.mem_append.mp inside with old | new
    · exact invariant.divided mark taken block old
    · cases List.mem_singleton.mp new
      have low := invariant.floors.le taken
      refine ⟨fun before => absurd (invariant.taken mark taken) (Nat.not_le_of_lt before), ?_⟩
      intro _
      dsimp only
      omega

theorem marked (invariant : Invariant program data) :
    Invariant { program with
      world := { program.world with ctx := { program.arena with floor := program.arena.offset } }
      marks := (⟨program.arena.offset, program.arena.floor⟩, program.next) :: program.marks } data := by
  have live := invariant.live
  constructor
  · exact live.moved (Nat.le_refl _) live.offset
  · exact invariant.placed
  · exact invariant.ordered
  · exact invariant.serials
  · exact invariant.recent
  · exact ⟨rfl, live.floor, invariant.floors⟩
  · intro mark taken
    rcases List.mem_cons.mp taken with rfl | before
    · exact Nat.le_refl _
    · exact invariant.taken mark before
  · intro mark taken block inside
    rcases List.mem_cons.mp taken with rfl | before
    · exact ⟨fun _ => (invariant.placed block inside).inside,
        fun after => absurd (invariant.recent block inside) (Nat.not_lt_of_le after)⟩
    · exact invariant.divided mark before block inside

theorem rewound (invariant : Invariant program data) {skipped : Nat} {mark : ArenaMark × Nat}
    (at_ : program.marks[skipped]? = some mark) :
    Invariant { program with
      world := { program.world with ctx := { program.arena with
        offset := mark.1.offset, floor := mark.1.floor } }
      blocks := program.blocks.filter fun block => decide (block.serial < mark.2)
      marks := program.marks.drop (skipped + 1) } data := by
  have live := invariant.live
  have taken : mark ∈ program.marks := List.mem_of_getElem? at_
  have low := invariant.floors.le taken
  have floor := live.floor
  have offset := live.offset
  rcases invariant.floors.drop at_ with ⟨lower, floors⟩
  have earlier : forall {other : ArenaMark × Nat}, other ∈ program.marks.drop (skipped + 1) ->
      other ∈ program.marks := fun inside => List.mem_of_mem_drop inside
  have kept : forall {block : ArenaBlock},
      block ∈ program.blocks.filter (fun block => decide (block.serial < mark.2)) ->
      block ∈ program.blocks ∧ block.serial < mark.2 :=
    fun inside => ⟨(List.mem_filter.mp inside).1, of_decide_eq_true (List.mem_filter.mp inside).2⟩
  constructor
  · exact live.moved lower (by omega)
  · intro block inside
    have placed := invariant.placed block (kept inside).1
    exact ⟨placed.asked, placed.some_, placed.above,
      (invariant.divided mark taken block (kept inside).1).1 (kept inside).2, placed.aligned⟩
  · exact invariant.ordered.filter _
  · exact invariant.serials.filter _
  · exact fun block inside => invariant.recent block (kept inside).1
  · exact floors
  · exact fun other inside => invariant.taken other (earlier inside)
  · exact fun other inside block there => invariant.divided other (earlier inside) block (kept there).1

theorem emptied (invariant : Invariant program data) :
    Invariant { program with
      world := { program.world with ctx := { program.arena with offset := 0, floor := 0 } }
      blocks := []
      marks := [] } data := by
  constructor
  · exact invariant.live.moved (Nat.le_refl 0) (Nat.zero_le _)
  · exact fun block inside => absurd inside List.not_mem_nil
  · exact List.Pairwise.nil
  · exact List.Pairwise.nil
  · exact fun block inside => absurd inside List.not_mem_nil
  · exact rfl
  · exact fun mark inside => absurd inside List.not_mem_nil
  · exact fun mark inside => absurd inside List.not_mem_nil

end Invariant
end ArenaProgram
end TerseDsa
