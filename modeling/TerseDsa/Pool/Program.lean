import TerseDsa.Pool.Model

namespace TerseDsa

open Foundation Run AlVtable

/-!
# Programs over a pool

A program keeps the blocks it holds and writes into them.  The invariant: the
free list, as memory threads it, and the blocks held are together the blocks of
the array, each one once.
-/

namespace Pool

variable {P : Type} {data idx : Nat} {memory : Region} {pool : Pool P} {layout : Layout}

/-- A pool whose array lies in the memory it was given. -/
structure Live (pool : Pool P) (data : Nat) (memory : Region) : Prop where
  data_eq : pool.data = some data
  base : 0 < data
  room : data + pool.blockSize * pool.blockCount < sizeRange
  count : 0 < pool.blockCount
  word : Bytes.wordSize ≤ pool.blockSize
  isAlign : Layout.isAlign pool.blockAlign = true
  align : pool.blockAlign < sizeRange
  tiles : pool.blockAlign ∣ pool.blockSize
  on_ : pool.blockAlign ∣ data
  inside : Region.Within ⟨data, pool.blockSize * pool.blockCount⟩ memory

/-- The starts of all blocks. -/
def all (pool : Pool P) (data : Nat) : List Nat := starts data pool.blockSize pool.blockCount

namespace Live

variable {addr other : Nat}

/-- The array does not depend on what is taken from it. -/
theorem taken (live : Live pool data memory) (used : Nat) (head : Option Addr) :
    Live { pool with used := used, freeHead := head } data memory := by
  constructor
  · exact live.data_eq
  · exact live.base
  · exact live.room
  · exact live.count
  · exact live.word
  · exact live.isAlign
  · exact live.align
  · exact live.tiles
  · exact live.on_
  · exact live.inside

theorem size_pos (live : Live pool data memory) : 0 < pool.blockSize :=
  Nat.lt_of_lt_of_le (by decide) live.word

theorem within (live : Live pool data memory) (inside : addr ∈ pool.all data) :
    Region.Within ⟨addr, pool.blockSize⟩ memory :=
  (starts_within inside).trans live.inside

/-- Different blocks lie apart, and so do parts of them. -/
theorem apart (_ : Live pool data memory) (left : addr ∈ pool.all data) (right : other ∈ pool.all data)
    (different : addr ≠ other) {inner outer : Region} (first : inner.Within ⟨addr, pool.blockSize⟩)
    (second : outer.Within ⟨other, pool.blockSize⟩) : inner.Apart outer :=
  (starts_apart left right different).within first second

/-- The link of a free block lies in the block. -/
theorem link_within (live : Live pool data memory) :
    Region.Within ⟨addr, Bytes.wordSize⟩ ⟨addr, pool.blockSize⟩ :=
  Region.within_of_le live.word

theorem linkable (live : Live pool data memory) (inside : addr ∈ pool.all data) :
    Bytes.Linkable addr := by
  have base := live.base
  have room := live.room
  have size := live.size_pos
  have within := starts_within inside
  unfold Region.Within Region.stop at within
  dsimp only at within
  unfold sizeRange at room
  exact ⟨by omega, by omega⟩

theorem aligned (live : Live pool data memory) (inside : addr ∈ pool.all data) :
    pool.blockAlign ∣ addr := by
  rcases mem_starts.mp inside with ⟨idx, _, rfl⟩
  exact Nat.dvd_add live.on_ (Nat.dvd_mul_left_of_dvd live.tiles idx)

theorem arrayLayout_eq (live : Live pool data memory) :
    (arrayLayout pool).size = pool.blockSize * pool.blockCount := by
  have room := live.room
  exact wrapMul_eq (by omega)

theorem ownsBlock (live : Live pool data memory) (inside : addr ∈ pool.all data) :
    Pool.ownsBlock pool data addr = true := by
  have room := live.room
  have size := live.size_pos
  have within := starts_within inside
  unfold Region.Within Region.stop at within
  dsimp only at within
  have above : data ≤ addr := within.1
  have end_ : wrapAdd data (arrayLayout pool).size = data + pool.blockSize * pool.blockCount := by
    rw [live.arrayLayout_eq]
    exact wrapAdd_eq room
  have offset : wrapSub addr data = addr - data := wrapSub_eq (by omega) above
  have whole : (addr - data) % pool.blockSize = 0 := by
    rcases mem_starts.mp inside with ⟨idx, _, rfl⟩
    rw [Nat.add_sub_cancel_left, Nat.mul_mod_left]
  have below : addr < data + pool.blockSize * pool.blockCount := by omega
  rw [Pool.ownsBlock, end_, offset, decide_eq_true above, decide_eq_true below, decide_eq_true whole]
  rfl

end Live

variable [HasBytes P] {s : P}

/-- The blocks from `idx` on are threaded; the others follow, the last one first. -/
theorem ends_pushBelow (live : Live pool data memory) (bound : idx ≤ pool.blockCount) {head : Option Addr}
    (threaded : Threaded (HasBytes.bytes s) head ((pool.all data).drop idx))
    {post : Pool P -> P -> Prop}
    (done : forall head later, Threaded (HasBytes.bytes later) head (pool.all data) ->
      post { pool with freeHead := head } later) :
    Ends (pushBelow { pool with freeHead := head } data idx) s post := by
  induction idx generalizing head s with
  | zero =>
      simp only [pushBelow, ends_pure]
      exact done head s threaded
  | succ idx ih =>
      have length : (pool.all data).length = pool.blockCount := by
        rw [all, starts, List.length_map, List.length_range]
      have inside : idx < (pool.all data).length := by omega
      have here : (pool.all data)[idx] = data + idx * pool.blockSize := by
        simp only [all, starts, List.getElem_map, List.getElem_range]
      have split_ : (pool.all data).drop idx =
          (data + idx * pool.blockSize) :: (pool.all data).drop (idx + 1) := by
        rw [← here]
        exact List.drop_eq_getElem_cons inside
      have mine : data + idx * pool.blockSize ∈ pool.all data := mem_starts.mpr ⟨idx, by omega, rfl⟩
      have once := (nodup_starts live.size_pos).sublist (List.drop_sublist idx (pool.all data))
      rw [split_] at once
      simp only [pushBelow, pushFree, writeLink, ends_bind, ends_modify, ends_pure]
      apply ih (by omega)
      rw [HasBytes.bytes_withBytes, split_]
      apply threaded.push (live.linkable mine)
      intro node inside
      apply live.apart (List.mem_of_mem_drop inside) mine _ live.link_within live.link_within
      rintro rfl
      exact (List.nodup_cons.mp once).1 inside

theorem ends_buildFreeList (live : Live pool data memory) {post : Pool P -> P -> Prop}
    (done : forall head later, Threaded (HasBytes.bytes later) head (pool.all data) ->
      post { pool with freeHead := head } later) :
    Ends (buildFreeList pool) s post := by
  simp only [buildFreeList, ends_bind, live.data_eq, ends_demand_some]
  have nothing : (pool.all data).drop pool.blockCount = [] := by
    apply List.drop_eq_nil_of_le
    rw [all, starts, List.length_map, List.length_range]
  have empty : Threaded (HasBytes.bytes s) none ((pool.all data).drop pool.blockCount) := by
    rw [nothing]
    exact Threaded.nil
  have ends := ends_pushBelow live (Nat.le_refl _) empty done
  rw [live.data_eq] at ends
  exact ends

end Pool

/-- A block that a program holds, under its current layout. -/
structure PoolBlock where
  ptr : Nat
  layout : Layout

/-- The pool, and the blocks a program holds. -/
structure PoolProgram (P : Type) where
  world : World (Pool P) P
  blocks : List PoolBlock

namespace PoolProgram

variable {P α : Type}

def pool (program : PoolProgram P) : Pool P := program.world.ctx

/-- Call the pool. -/
def call (run : Run (World (Pool P) P) α) : Run (PoolProgram P) α :=
  zoom PoolProgram.world (fun world program => { program with world := world }) run

/-- The layout of the block held at `ptr`. -/
def lookUp (ptr : Nat) : Run (PoolProgram P) PoolBlock := do
  let program ← get
  demand (program.blocks.find? fun block => block.ptr == ptr)

/-- What a program may do with its pool and the blocks it holds. -/
inductive Act where
  | alloc (layout : Layout)
  | resize (ptr newSize : Nat)
  | dealloc (ptr : Nat)
  | write (addr : Nat) (byte : Byte)
  | reset

namespace Act

variable [HasBytes P]

def run : Act -> Run (PoolProgram P) Unit
  | alloc layout => do
      match ← call (allocate (Pool.toAl P) layout) with
      | none => return ()
      | some ptr => modify fun program => { program with blocks := program.blocks ++ [⟨ptr, layout⟩] }
  | resize ptr newSize => do
      let block ← lookUp ptr
      if ← call (resizeInPlace (Pool.toAl P) ptr block.layout newSize) then
        modify fun program => { program with blocks := program.blocks.map fun block =>
          if block.ptr = ptr then ⟨ptr, ⟨newSize, block.layout.align⟩⟩ else block }
  | dealloc ptr => do
      let block ← lookUp ptr
      call (deallocate (Pool.toAl P) (some ptr) block.layout)
      modify fun program => { program with blocks := program.blocks.eraseP fun block => block.ptr == ptr }
  | write addr byte => call (setBytes addr 1 byte)
  | reset => do
      call Pool.reset
      modify fun program => { program with blocks := [] }

/-- The program holds the block. -/
def Holds (ptr : Nat) (program : PoolProgram P) : Prop :=
  exists block, block ∈ program.blocks ∧ block.ptr = ptr

/-- What callers keep to. -/
def Allowed : Act -> PoolProgram P -> Prop
  | alloc layout, program => layout.Asked ∧ layout.align ≤ program.pool.blockAlign
  | resize ptr newSize, program => Holds ptr program ∧ 0 < newSize ∧ newSize < sizeRange
  | dealloc ptr, program => Holds ptr program
  | write addr _, program => exists block, block ∈ program.blocks ∧
      Region.Covers ⟨block.ptr, block.layout.size⟩ addr
  | reset, _ => True

end Act

/-- A layout that a block of the pool can have. -/
structure Fits (pool : Pool P) (layout : Layout) : Prop where
  asked : layout.Asked
  some_ : 0 < layout.size
  size : layout.size ≤ pool.blockSize
  align : layout.align ≤ pool.blockAlign

/-- The free list and the blocks held are all blocks, each one once. -/
structure Invariant [HasBytes P] (program : PoolProgram P) (data : Nat) (memory : Region)
    (free : List Nat) : Prop where
  live : program.pool.Live data memory
  threaded : Threaded (HasBytes.bytes program.world) program.pool.freeHead free
  divided : (free ++ program.blocks.map PoolBlock.ptr).Perm (program.pool.all data)
  used : program.pool.used = program.blocks.length
  fits : forall block, block ∈ program.blocks -> Fits program.pool block.layout

namespace Invariant

variable [HasBytes P] {program : PoolProgram P} {data addr : Nat} {memory : Region} {free : List Nat}
  {block other : PoolBlock}

theorem distinct (invariant : Invariant program data memory free) :
    (free ++ program.blocks.map PoolBlock.ptr).Nodup :=
  invariant.divided.nodup_iff.mpr (nodup_starts invariant.live.size_pos)

theorem free_mem (invariant : Invariant program data memory free) (inside : addr ∈ free) :
    addr ∈ program.pool.all data :=
  invariant.divided.mem_iff.mp (List.mem_append_left _ inside)

theorem held_mem (invariant : Invariant program data memory free) (inside : block ∈ program.blocks) :
    block.ptr ∈ program.pool.all data :=
  invariant.divided.mem_iff.mp (List.mem_append_right _ (List.mem_map_of_mem inside))

theorem free_ne (invariant : Invariant program data memory free) (inside : addr ∈ free)
    (held : block ∈ program.blocks) : addr ≠ block.ptr := by
  rintro rfl
  exact (List.nodup_append'.mp invariant.distinct).2.2 inside (List.mem_map_of_mem held)

/-- A block that is held is known by its start. -/
theorem held_eq (invariant : Invariant program data memory free) (left : block ∈ program.blocks)
    (right : other ∈ program.blocks) (same : block.ptr = other.ptr) : block = other :=
  List.inj_on_of_nodup_map (List.nodup_append'.mp invariant.distinct).2.1 left right same

theorem length (invariant : Invariant program data memory free) :
    free.length + program.blocks.length = program.pool.blockCount := by
  have whole := invariant.divided.length_eq
  rw [List.length_append, List.length_map, Pool.all, starts, List.length_map, List.length_range]
    at whole
  exact whole

theorem asserts (invariant : Invariant program data memory free) : program.pool.Asserts := by
  have length := invariant.length
  have used := invariant.used
  exact ⟨by rw [invariant.live.data_eq]; rfl, invariant.live.count, by omega⟩

/-- The memory was written where no free block has its link. -/
theorem rewritten (invariant : Invariant program data memory free) {world : World (Pool P) P}
    (same : world.ctx = program.pool) {region : Region}
    (keeps : Bytes.Keeps (HasBytes.bytes program.world) (HasBytes.bytes world) region)
    (apart : forall addr, addr ∈ free -> Region.Apart ⟨addr, Bytes.wordSize⟩ region) :
    Invariant { program with world := world } data memory free := by
  cases world with
  | mk ctx below =>
      cases same
      exact ⟨invariant.live, invariant.threaded.frame keeps apart, invariant.divided, invariant.used,
        invariant.fits⟩

end Invariant
end PoolProgram
end TerseDsa
