import TerseDsa.Slab.Steps

namespace TerseDsa

open Foundation AlVtable
open Function (update update_self update_of_ne)

/-!
# How the books follow the slab

Which writes to memory leave the lists of the slab as they are, and one lemma for
every change that a hook makes: the books can be brought up to date.
-/

namespace SlabProgram

open Slab

variable {program : SlabProgram} {blocks rest : List SlabBlock} {carved : List (Nat × Nat)}
  {chunks : List SlabChunk} {frees : Nat -> List Nat} {others : List (Nat × Layout)}
  {block : SlabBlock} {chunk : SlabChunk} {layout : Layout} {slab : Slab Parent} {parent later : Parent}
  {region : Region} {newSize : Nat}

/-- There are books that fit. -/
def Valid (others : List (Nat × Layout)) (program : SlabProgram) : Prop :=
  exists chunks frees, Invariant program others chunks frees

/-- No link of a chunk or of a free block is in the region. -/
structure Clear (chunks : List SlabChunk) (frees : Nat -> List Nat) (region : Region) : Prop where
  links : forall chunk, chunk ∈ chunks -> Region.Apart ⟨chunk.link, Bytes.wordSize⟩ region
  free : forall idx, idx < classCount -> forall addr, addr ∈ frees idx ->
    Region.Apart ⟨addr, Bytes.wordSize⟩ region

namespace Books

/-- What lies apart from all that the slab has is clear. -/
theorem clear_of_apart (books : Books blocks carved chunks frees)
    (apart : forall entry, entry ∈ taken chunks blocks -> region.Apart (Parent.region entry)) :
    Clear chunks frees region where
  links chunk there :=
    ((apart chunk.entry (List.mem_append_left _ (List.mem_map_of_mem there))).within
      (Region.Within.refl _) SlabChunk.link_within).symm
  free idx cls addr inside := by
    have carved_ := books.free_mem cls inside
    rcases books.mem_carved.mp carved_ with ⟨chunk, there, rfl, mine⟩
    exact ((apart chunk.entry (List.mem_append_left _ (List.mem_map_of_mem there))).within
      (Region.Within.refl _) ((books.link_within carved_).trans
        (SlabChunk.cell_within_entry (books.live _ there) mine))).symm

theorem clear_of_within (books : Books blocks carved chunks frees) (held : block ∈ blocks)
    (within : region.Within block.room) : Clear chunks frees region where
  links _ there := (books.link_apart_room there held).within (Region.Within.refl _) within
  free _ cls _ inside :=
    (books.free_apart_room cls inside held).within (books.link_within (books.free_mem cls inside)) within

end Books

namespace Invariant

theorem taken_mem (invariant : Invariant ⟨⟨slab, parent⟩, blocks, carved⟩ others chunks frees)
    {entry : Nat × Layout} (inside : entry ∈ taken chunks blocks) : entry ∈ parent.out :=
  invariant.out.mem_iff.mpr (List.mem_append_left _ inside)

/-- The books may list the blocks in any order. -/
theorem perm (invariant : Invariant ⟨⟨slab, parent⟩, blocks, carved⟩ others chunks frees)
    (perm : blocks.Perm rest) : Invariant ⟨⟨slab, parent⟩, rest, carved⟩ others chunks frees where
  books := invariant.books.perm perm
  parent := invariant.parent
  threaded := invariant.threaded
  count := invariant.count
  out := invariant.out.trans ((taken_perm perm).append_right others)
  carves := invariant.carves
  free := invariant.free
  smallCount := invariant.smallCount.trans (perm.filter _).length_eq
  largeCount := invariant.largeCount.trans (perm.filter _).length_eq

/-- Memory was written where no link is. -/
theorem rewritten (invariant : Invariant ⟨⟨slab, parent⟩, blocks, carved⟩ others chunks frees)
    (out : later.out = parent.out) (keeps : Bytes.Keeps parent.bytes later.bytes region)
    (clear : Clear chunks frees region) :
    Invariant ⟨⟨slab, later⟩, blocks, carved⟩ others chunks frees where
  books := invariant.books
  parent := invariant.parent
  threaded := invariant.threaded.frame keeps fun node inside => by
    rcases List.mem_map.mp inside with ⟨chunk, there, rfl⟩
    exact clear.links chunk there
  count := invariant.count
  out := by
    change later.out.Perm _
    rw [out]
    exact invariant.out
  carves := invariant.carves
  free idx cls := (invariant.free idx cls).frame keeps (clear.free idx cls)
  smallCount := invariant.smallCount
  largeCount := invariant.largeCount

theorem refused (invariant : Invariant ⟨⟨slab, parent⟩, blocks, carved⟩ others chunks frees)
    (same : Parent.Same parent later) :
    Invariant ⟨⟨slab, later⟩, blocks, carved⟩ others chunks frees := by
  have keeps : Bytes.Keeps parent.bytes later.bytes ⟨0, 0⟩ := fun addr _ => by rw [same.bytes]
  refine invariant.rewritten same.out keeps ⟨?_, ?_⟩
  · exact fun _ _ => Or.inr (Nat.zero_le _)
  · exact fun _ _ _ _ => Or.inr (Nat.zero_le _)

end Invariant

theorem smalls_cons_small (small : classOf block.layout < classCount) :
    ((block :: blocks).filter fun block => !block.large).length =
      (blocks.filter fun block => !block.large).length + 1 := by
  rw [List.filter_cons_of_pos, List.length_cons]
  rw [SlabBlock.small_iff.mpr small]
  rfl

theorem smalls_cons_large (large : block.large = true) :
    ((block :: blocks).filter fun block => !block.large).length =
      (blocks.filter fun block => !block.large).length := by
  rw [List.filter_cons_of_neg]
  rw [large]
  exact Bool.false_ne_true

/-! ## Large blocks -/

/-- The parent handed out a large block. -/
theorem Invariant.holdLarge (invariant : Invariant ⟨⟨slab, parent⟩, blocks, carved⟩ others chunks frees)
    (asked : block.layout.Asked) (some_ : 0 < block.layout.size)
    (aligned : block.layout.align ∣ block.ptr) (large : block.large = true) (apart : forall entry, entry ∈ taken chunks blocks -> block.region.Apart (Parent.region entry))
    (out : later.out = block.entry :: parent.out)
    (keeps : Bytes.Keeps parent.bytes later.bytes region) (clear : Clear chunks frees region) :
    Invariant ⟨⟨{ slab with largeBlocks := slab.largeBlocks + 1 }, later⟩, block :: blocks, carved⟩ others
      chunks frees where
  books := invariant.books.addLarge asked some_ aligned large apart
  parent := invariant.parent
  threaded := invariant.threaded.frame keeps fun node inside => by
    rcases List.mem_map.mp inside with ⟨chunk, there, rfl⟩
    exact clear.links chunk there
  count := invariant.count
  out := by
    change later.out.Perm _
    rw [out]
    exact (invariant.out.cons _).trans ((taken_cons_large large).symm.append_right others)
  carves := invariant.carves
  free idx cls := (invariant.free idx cls).frame keeps (clear.free idx cls)
  smallCount := invariant.smallCount.trans (smalls_cons_large large).symm
  largeCount := by
    rw [larges_cons_large large, List.length_cons]
    exact congrArg (· + 1) invariant.largeCount

/-- A large block went back to the parent. -/
theorem Invariant.dropLarge
    (invariant : Invariant ⟨⟨slab, parent⟩, block :: blocks, carved⟩ others chunks frees)
    (large : block.large = true) (out : later.out = parent.out.erase block.entry)
    (keeps : Bytes.Keeps parent.bytes later.bytes region) (clear : Clear chunks frees region) :
    Invariant ⟨⟨{ slab with largeBlocks := slab.largeBlocks - 1 }, later⟩, blocks, carved⟩ others
      chunks frees where
  books := invariant.books.dropLarge large
  parent := invariant.parent
  threaded := invariant.threaded.frame keeps fun node inside => by
    rcases List.mem_map.mp inside with ⟨chunk, there, rfl⟩
    exact clear.links chunk there
  count := invariant.count
  out := by
    change later.out.Perm _
    have before := (invariant.out.trans ((taken_cons_large large).append_right others)).erase block.entry
    rw [List.cons_append, List.erase_cons_head] at before
    rw [out]
    exact before
  carves := invariant.carves
  free idx cls := (invariant.free idx cls).frame keeps (clear.free idx cls)
  smallCount := invariant.smallCount.trans (smalls_cons_large large)
  largeCount := by
    have before := invariant.largeCount
    rw [larges_cons_large large, List.length_cons] at before
    exact Nat.sub_eq_of_eq_add before

/-! ## Small blocks -/

/-- The first block of a free list is handed out. -/
theorem Invariant.takeFree (invariant : Invariant ⟨⟨slab, parent⟩, blocks, carved⟩ others chunks frees)
    (asked : layout.Asked) (some_ : 0 < layout.size) (small : classOf layout < classCount)
    {node : Nat} {tail : List Nat} (split_ : frees (classOf layout) = node :: tail) :
    Invariant ⟨⟨{ slab.withClass (classOf layout)
        { slab.classes (classOf layout) with freeHead := parent.bytes.link node } with
        smallBlocks := slab.smallBlocks + 1 }, parent⟩, ⟨node, layout⟩ :: blocks, carved⟩ others
      chunks (update frees (classOf layout) tail) where
  books := invariant.books.takeFree asked some_ small split_
  parent := invariant.parent
  threaded := invariant.threaded
  count := invariant.count
  out := by
    rw [taken_cons_small small]
    exact invariant.out
  carves idx cls := by
    have carves := invariant.carves idx cls
    change Carves (update slab.classes _ _ idx) _
    by_cases same : idx = classOf layout
    · subst same
      rw [update_self]
      generalize chunks.find? _ = newest at carves ⊢
      cases newest <;> exact carves
    · rw [update_of_ne same]
      exact carves
  free idx cls := by
    have free := invariant.free idx cls
    change Threaded parent.bytes (update slab.classes _ _ idx).freeHead _
    by_cases same : idx = classOf layout
    · subst same
      rw [update_self, update_self]
      rw [split_] at free
      exact free.pop
    · rw [update_of_ne same, update_of_ne same]
      exact free
  smallCount := by
    rw [smalls_cons_small small]
    exact congrArg (· + 1) invariant.smallCount
  largeCount := by
    rw [larges_cons_small small]
    exact invariant.largeCount

/-- A block was put at the head of the free list of its class. -/
theorem Invariant.dropSmall
    (invariant : Invariant ⟨⟨slab, parent⟩, block :: blocks, carved⟩ others chunks frees)
    (small : classOf block.layout < classCount) (out : later.out = parent.out)
    (bytes : later.bytes = parent.bytes.setLink block.ptr (slab.classes (classOf block.layout)).freeHead) :
    Invariant ⟨⟨{ slab.withClass (classOf block.layout)
        { slab.classes (classOf block.layout) with freeHead := some block.ptr } with
        smallBlocks := slab.smallBlocks - 1 }, later⟩, blocks, carved⟩ others
      chunks (update frees (classOf block.layout) (block.ptr :: frees (classOf block.layout))) := by
  have held : block ∈ block :: blocks := List.mem_cons_self
  have mine := invariant.books.held_mem held small
  have keeps : Bytes.Keeps parent.bytes later.bytes ⟨block.ptr, Bytes.wordSize⟩ := by
    rw [bytes]
    exact Bytes.keeps_setLink _ _ _
  have clear : Clear chunks frees ⟨block.ptr, Bytes.wordSize⟩ := by
    apply invariant.books.clear_of_within held
    rw [SlabBlock.room_of_small small]
    exact invariant.books.link_within mine
  have moved := invariant.rewritten out keeps clear
  have before := moved.out
  rw [taken_cons_small small] at before
  refine ⟨invariant.books.dropSmall, invariant.parent, moved.threaded, invariant.count, before, ?_, ?_, ?_, ?_⟩
  · intro idx cls
    have carves := invariant.carves idx cls
    change Carves (update slab.classes _ _ idx) _
    by_cases same : idx = classOf block.layout
    · subst same
      rw [update_self]
      generalize chunks.find? _ = newest at carves ⊢
      cases newest <;> exact carves
    · rw [update_of_ne same]
      exact carves
  · intro idx cls
    change Threaded later.bytes (update slab.classes _ _ idx).freeHead _
    by_cases same : idx = classOf block.layout
    · subst same
      rw [update_self, update_self, bytes]
      exact (invariant.free _ cls).push (invariant.books.carved_linkable mine) (clear.free _ cls)
    · rw [update_of_ne same, update_of_ne same]
      exact moved.free idx cls
  · have count := invariant.smallCount
    rw [smalls_cons_small small] at count
    exact Nat.sub_eq_of_eq_add count
  · have count := invariant.largeCount
    rw [larges_cons_small small] at count
    exact count

/-- A small block got another layout of its class. -/
theorem Invariant.exchangeSmall
    (invariant : Invariant ⟨⟨slab, parent⟩, block :: blocks, carved⟩ others chunks frees)
    (asked : layout.Asked) (some_ : 0 < layout.size) (small : classOf block.layout < classCount)
    (same : classOf layout = classOf block.layout) :
    Invariant ⟨⟨slab, parent⟩, ⟨block.ptr, layout⟩ :: blocks, carved⟩ others chunks frees := by
  have also : classOf layout < classCount := same ▸ small
  have out := invariant.out
  have count := invariant.smallCount
  have large := invariant.largeCount
  rw [taken_cons_small small] at out
  rw [smalls_cons_small small] at count
  rw [larges_cons_small small] at large
  refine ⟨invariant.books.exchangeSmall asked some_ small same, invariant.parent, invariant.threaded,
    invariant.count, ?_, invariant.carves, invariant.free, ?_, ?_⟩
  · rw [taken_cons_small also]
    exact out
  · rw [smalls_cons_small also]
    exact count
  · rw [larges_cons_small also]
    exact large

/-! ## Carving -/

/-- The newest chunk of a class, and what stands before and after it. -/
theorem newest_split {idx : Nat} (found : chunks.find? (fun chunk => chunk.cls == idx) = some chunk) :
    chunk.cls = idx ∧ exists front back, chunks = front ++ chunk :: back ∧
      forall other, other ∈ front -> (other.cls == idx) = false := by
  rcases List.find?_eq_some_iff_append.mp found with ⟨cls, front, back, split_, none_⟩
  refine ⟨beq_iff_eq.mp cls, front, back, split_, ?_⟩
  intro other inside
  have not_ := none_ other inside
  rwa [Bool.not_eq_true'] at not_

/-- One more block of the newest chunk of a class is handed out. -/
theorem Invariant.carveNext (invariant : Invariant ⟨⟨slab, parent⟩, blocks, carved⟩ others chunks frees)
    (asked : layout.Asked) (some_ : 0 < layout.size) (small : classOf layout < classCount)
    (found : chunks.find? (fun chunk => chunk.cls == classOf layout) = some chunk)
    (room : (chunk.carved + 1) * classSize chunk.cls ≤ chunkRoom) :
    Valid others ⟨⟨{ slab.withClass (classOf layout)
        { slab.classes (classOf layout) with carve := some (chunk.tip + classSize (classOf layout)) } with
        smallBlocks := slab.smallBlocks + 1 }, parent⟩,
      ⟨chunk.tip, layout⟩ :: blocks, (chunk.tip, classOf layout) :: carved⟩ := by
  rcases newest_split found with ⟨cls, front, back, rfl, none_⟩
  refine ⟨front ++ chunk.further :: back, frees, invariant.books.carveNext asked some_ cls room,
    invariant.parent, ?_, ?_, ?_, ?_, ?_, ?_, ?_⟩
  · have threaded := invariant.threaded
    rw [List.map_append, List.map_cons] at threaded ⊢
    exact threaded
  · have count := invariant.count
    rw [List.length_append, List.length_cons] at count ⊢
    exact count
  · have out := invariant.out
    unfold taken at out ⊢
    rw [larges_cons_small small]
    rw [List.map_append, List.map_cons] at out ⊢
    exact out
  · intro idx inRange
    have carves := invariant.carves idx inRange
    change Carves (update slab.classes _ _ idx) _
    by_cases same : idx = classOf layout
    · subst same
      have newest : (front ++ chunk.further :: back).find? (fun chunk => chunk.cls == classOf layout) =
          some chunk.further := by
        refine List.find?_eq_some_iff_append.mpr ⟨beq_iff_eq.mpr cls, front, back, rfl, ?_⟩
        intro other inside
        rw [none_ other inside]
        rfl
      rw [found] at carves
      rw [newest, update_self]
      refine ⟨?_, carves.2⟩
      change some (chunk.tip + classSize _) = some (chunk.start + (chunk.carved + 1) * classSize chunk.cls)
      rw [Nat.succ_mul, ← Nat.add_assoc, cls]
      unfold SlabChunk.tip
      rw [cls]
    · have other : (chunk.cls == idx) = false := by
        rw [cls]
        exact beq_eq_false_iff_ne.mpr (Ne.symm same)
      have also : (chunk.further.cls == idx) = false := other
      rw [update_of_ne same]
      rw [List.find?_append, List.find?_cons, other] at carves
      rw [List.find?_append, List.find?_cons, also]
      exact carves
  · intro idx inRange
    have free := invariant.free idx inRange
    change Threaded parent.bytes (update slab.classes _ _ idx).freeHead _
    by_cases same : idx = classOf layout
    · subst same
      rw [update_self]
      exact free
    · rw [update_of_ne same]
      exact free
  · rw [smalls_cons_small small]
    exact congrArg (· + 1) invariant.smallCount
  · rw [larges_cons_small small]
    exact invariant.largeCount

/-- A chunk that the parent handed out is linked in front and carved from now on. -/
theorem Invariant.linkChunk (invariant : Invariant ⟨⟨slab, parent⟩, blocks, carved⟩ others chunks frees)
    (live : chunk.Live) (empty : chunk.carved = 0)
    (apart : forall entry, entry ∈ taken chunks blocks ->
      (Parent.region chunk.entry).Apart (Parent.region entry))
    (out : later.out = chunk.entry :: parent.out) {middle : Bytes}
    (keeps : Bytes.Keeps parent.bytes middle (Parent.region chunk.entry))
    (bytes : later.bytes = middle.setLink chunk.link slab.chunks) :
    Invariant ⟨⟨{ slab with
        chunks := some chunk.link
        chunkCount := slab.chunkCount + 1
        classes := update slab.classes chunk.cls { slab.classes chunk.cls with
          carve := some chunk.start, carveEnd := some chunk.link } }, later⟩, blocks, carved⟩ others
      (chunk :: chunks) frees := by
  have clear := invariant.books.clear_of_apart apart
  have linked : Bytes.Keeps middle later.bytes ⟨chunk.link, Bytes.wordSize⟩ := by
    rw [bytes]
    exact Bytes.keeps_setLink _ _ _
  have clearLink : Clear chunks frees ⟨chunk.link, Bytes.wordSize⟩ :=
    ⟨fun other there => (clear.links other there).within (Region.Within.refl _) SlabChunk.link_within,
      fun idx cls addr inside =>
        (clear.free idx cls addr inside).within (Region.Within.refl _) SlabChunk.link_within⟩
  refine ⟨invariant.books.addChunk live empty apart, invariant.parent, ?_, ?_, ?_, ?_, ?_,
    invariant.smallCount, invariant.largeCount⟩
  · change Threaded later.bytes (some chunk.link) (chunk.link :: chunks.map SlabChunk.link)
    rw [bytes]
    refine (invariant.threaded.frame keeps ?_).push (SlabChunk.link_linkable live) ?_
    · intro node inside
      rcases List.mem_map.mp inside with ⟨other, there, rfl⟩
      exact clear.links other there
    · intro node inside
      rcases List.mem_map.mp inside with ⟨other, there, rfl⟩
      exact clearLink.links other there
  · rw [List.length_cons]
    exact congrArg (· + 1) invariant.count
  · change later.out.Perm _
    rw [out]
    exact invariant.out.cons _
  · intro idx inRange
    change Carves (update slab.classes _ _ idx) _
    by_cases same : idx = chunk.cls
    · subst same
      rw [update_self, List.find?_cons, beq_self_eq_true]
      refine ⟨?_, rfl⟩
      rw [empty, Nat.zero_mul]
      rfl
    · have other : (chunk.cls == idx) = false := beq_eq_false_iff_ne.mpr (Ne.symm same)
      rw [update_of_ne same, List.find?_cons, other]
      exact invariant.carves idx inRange
  · intro idx inRange
    have free := ((invariant.free idx inRange).frame keeps (clear.free idx inRange)).frame linked
      (clearLink.free idx inRange)
    change Threaded later.bytes (update slab.classes _ _ idx).freeHead _
    by_cases same : idx = chunk.cls
    · subst same
      rw [update_self]
      exact free
    · rw [update_of_ne same]
      exact free

end SlabProgram
end TerseDsa
