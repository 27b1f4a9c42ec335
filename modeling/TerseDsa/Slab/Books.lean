import TerseDsa.Slab.Program

namespace TerseDsa

open Foundation AlVtable

/-!
# What the books say

Everything the slab handed out lies apart, because chunks and large blocks do
and the blocks of one chunk tile it.  Nothing here looks at memory.
-/

namespace SlabBlock

open Slab

variable {block : SlabBlock}

/-- The room that the block has. -/
def room (block : SlabBlock) : Region :=
  if block.large = true then block.region else ⟨block.ptr, classSize (classOf block.layout)⟩

theorem large_iff : block.large = true <-> classOf block.layout = classCount := beq_iff_eq

theorem small_iff : block.large = false <-> classOf block.layout < classCount := by
  have bound : classOf block.layout ≤ classCount := classOf_le
  rw [← Bool.not_eq_true, large_iff]
  omega

theorem room_of_large (large : block.large = true) : block.room = block.region := if_pos large

theorem room_of_small (small : classOf block.layout < classCount) :
    block.room = ⟨block.ptr, classSize (classOf block.layout)⟩ := by
  have not_ : ¬ block.large = true := by
    rw [large_iff]
    omega
  exact if_neg not_

theorem region_within : block.region.Within block.room := by
  by_cases large : block.large = true
  · rw [room_of_large large]
    exact Region.Within.refl _
  · have small : classOf block.layout < classCount := small_iff.mp (Bool.eq_false_iff.mpr large)
    rw [room_of_small small]
    exact Region.within_of_le (serves_classOf small).1

end SlabBlock

namespace SlabProgram

open Slab

variable {blocks after : List SlabBlock} {carved : List (Nat × Nat)} {chunks : List SlabChunk}
  {frees : Nat -> List Nat} {block other : SlabBlock} {chunk second : SlabChunk}
  {addr idx left right : Nat}

theorem mem_carvedFor : addr ∈ carvedFor carved idx <-> (addr, idx) ∈ carved := by
  unfold carvedFor
  rw [List.mem_map]
  constructor
  · rintro ⟨mark, inside, rfl⟩
    rcases List.mem_filter.mp inside with ⟨inside, is_⟩
    rw [← beq_iff_eq.mp is_]
    exact inside
  · intro inside
    exact ⟨(addr, idx), List.mem_filter.mpr ⟨inside, beq_self_eq_true idx⟩, rfl⟩

theorem mem_heldOf : addr ∈ heldOf blocks idx <->
    exists block, block ∈ blocks ∧ classOf block.layout = idx ∧ block.ptr = addr := by
  unfold heldOf
  simp only [List.mem_map, List.mem_filter, beq_iff_eq]
  constructor
  · rintro ⟨block, ⟨inside, cls⟩, same⟩
    exact ⟨block, inside, cls, same⟩
  · rintro ⟨block, inside, cls, same⟩
    exact ⟨block, ⟨inside, cls⟩, same⟩

theorem mem_larges : block ∈ larges blocks <-> block ∈ blocks ∧ block.large = true := List.mem_filter

/-- Regions that are not empty and lie apart start at different addresses. -/
theorem start_ne {size also : Nat} (apart : Region.Apart ⟨left, size⟩ ⟨right, also⟩)
    (some_ : 0 < size) (second : 0 < also) : left ≠ right := by
  unfold Region.Apart Region.stop at apart
  dsimp only at apart
  omega

namespace Books

variable (books : Books blocks carved chunks frees)

include books

/-! ## What the parent gave lies apart -/

theorem chunks_apart (inside : chunk ∈ chunks) (also : second ∈ chunks) (different : chunk ≠ second) :
    (Parent.region chunk.entry).Apart (Parent.region second.entry) := by
  have apart := List.pairwise_map.mp (List.pairwise_append.mp books.apart).1
  exact Region.apart_of_pairwise (fun chunk => Parent.region (SlabChunk.entry chunk)) apart inside also different

theorem chunk_apart_large (inside : chunk ∈ chunks) (held : block ∈ blocks) (large : block.large = true) :
    (Parent.region chunk.entry).Apart block.region :=
  (List.pairwise_append.mp books.apart).2.2 _ (List.mem_map_of_mem inside) _
    (List.mem_map_of_mem (mem_larges.mpr ⟨held, large⟩))

theorem larges_apart (held : block ∈ blocks) (large : block.large = true) (also : other ∈ blocks)
    (largeToo : other.large = true) (different : block ≠ other) : block.region.Apart other.region := by
  have apart := List.pairwise_map.mp (List.pairwise_append.mp books.apart).2.1
  exact Region.apart_of_pairwise SlabBlock.region apart (mem_larges.mpr ⟨held, large⟩)
    (mem_larges.mpr ⟨also, largeToo⟩) different

/-! ## What was carved lies apart -/

theorem mem_carved : (addr, idx) ∈ carved <->
    exists chunk, chunk ∈ chunks ∧ chunk.cls = idx ∧ addr ∈ chunk.cells := by
  rw [books.logged.mem_iff, List.mem_flatMap]
  simp only [SlabChunk.marks, List.mem_map, Prod.mk.injEq]
  constructor
  · rintro ⟨chunk, inside, cell, mine, rfl, rfl⟩
    exact ⟨chunk, inside, rfl, mine⟩
  · rintro ⟨chunk, inside, rfl, mine⟩
    exact ⟨chunk, inside, addr, mine, rfl, rfl⟩

theorem carved_lt (inside : (addr, idx) ∈ carved) : idx < classCount := by
  rcases books.mem_carved.mp inside with ⟨chunk, there, rfl, _⟩
  exact (books.live chunk there).cls

theorem carved_pos (inside : (addr, idx) ∈ carved) : 0 < classSize idx := by
  have facts := (classSize_facts idx (books.carved_lt inside)).1
  omega

/-- Of two carved blocks, either both are one and the same or they lie apart. -/
theorem carved_apart (inside : (left, idx) ∈ carved) {next : Nat} (also : (right, next) ∈ carved) :
    (left, idx) = (right, next) ∨ Region.Apart ⟨left, classSize idx⟩ ⟨right, classSize next⟩ := by
  rcases books.mem_carved.mp inside with ⟨chunk, there, rfl, mine⟩
  rcases books.mem_carved.mp also with ⟨second, here, rfl, its⟩
  by_cases same : chunk = second
  · subst same
    by_cases equal : left = right
    · exact Or.inl (by rw [equal])
    · exact Or.inr (starts_apart mine its equal)
  · exact Or.inr ((books.chunks_apart there here same).within
      (SlabChunk.cell_within_entry (books.live _ there) mine)
      (SlabChunk.cell_within_entry (books.live _ here) its))

/-- A block is carved for one class only. -/
theorem carved_cls {next : Nat} (inside : (addr, idx) ∈ carved) (also : (addr, next) ∈ carved) :
    idx = next := by
  rcases books.carved_apart inside also with same | apart
  · exact congrArg Prod.snd same
  · exact absurd rfl (start_ne apart (books.carved_pos inside) (books.carved_pos also))

theorem carved_apart_large (inside : (addr, idx) ∈ carved) (held : block ∈ blocks)
    (large : block.large = true) : Region.Apart ⟨addr, classSize idx⟩ block.region := by
  rcases books.mem_carved.mp inside with ⟨chunk, there, rfl, mine⟩
  exact (books.chunk_apart_large there held large).within
    (SlabChunk.cell_within_entry (books.live _ there) mine) (Region.Within.refl _)

theorem carved_apart_link (inside : (addr, idx) ∈ carved) (there : chunk ∈ chunks) :
    Region.Apart ⟨addr, classSize idx⟩ ⟨chunk.link, Bytes.wordSize⟩ := by
  rcases books.mem_carved.mp inside with ⟨second, here, rfl, its⟩
  by_cases same : second = chunk
  · subst same
    exact SlabChunk.cell_apart_link (books.live _ here) its
  · exact (books.chunks_apart here there same).within
      (SlabChunk.cell_within_entry (books.live _ here) its) SlabChunk.link_within

theorem carved_linkable (inside : (addr, idx) ∈ carved) : Bytes.Linkable addr := by
  rcases books.mem_carved.mp inside with ⟨chunk, there, rfl, mine⟩
  exact SlabChunk.cell_linkable (books.live _ there) mine

/-- The link of a free block lies in the block. -/
theorem link_within (inside : (addr, idx) ∈ carved) :
    Region.Within ⟨addr, Bytes.wordSize⟩ ⟨addr, classSize idx⟩ := by
  have facts := (classSize_facts idx (books.carved_lt inside)).1
  exact Region.within_of_le (Nat.le_trans (by decide) facts)

/-- What was carved starts on the alignment of every layout of its class. -/
theorem carved_aligned {layout : Layout} (asked : layout.Asked)
    (inside : (addr, classOf layout) ∈ carved) : layout.align ∣ addr := by
  rcases books.mem_carved.mp inside with ⟨chunk, there, cls, mine⟩
  have live := books.live chunk there
  rcases mem_starts.mp mine with ⟨k, _, rfl⟩
  have small : classOf layout < classCount := cls ▸ live.cls
  rw [cls]
  exact aligned_of_classOf asked small live.aligned

theorem nodup_carved : (carved.map Prod.fst).Nodup := by
  have cells : (chunks.flatMap SlabChunk.marks).map Prod.fst = chunks.flatMap SlabChunk.cells := by
    rw [List.map_flatMap]
    congr 1
    funext chunk
    rw [SlabChunk.marks, List.map_map]
    exact List.map_id _
  rw [(books.logged.map Prod.fst).nodup_iff, cells, List.nodup_flatMap]
  constructor
  · intro chunk there
    have facts := (classSize_facts _ (books.live chunk there).cls).1
    exact nodup_starts (by omega)
  · have apart := List.pairwise_map.mp (List.pairwise_append.mp books.apart).1
    refine apart.imp_of_mem ?_
    intro first next there here apart addr mine its
    have size : 0 < classSize first.cls := books.carved_pos (books.mem_carved.mpr ⟨first, there, rfl, mine⟩)
    have also : 0 < classSize next.cls := books.carved_pos (books.mem_carved.mpr ⟨next, here, rfl, its⟩)
    exact start_ne (apart.within (SlabChunk.cell_within_entry (books.live _ there) mine)
      (SlabChunk.cell_within_entry (books.live _ here) its)) size also rfl

/-! ## Free blocks and held ones -/

theorem free_mem (cls : idx < classCount) (inside : addr ∈ frees idx) : (addr, idx) ∈ carved :=
  mem_carvedFor.mp ((books.divided idx cls).mem_iff.mp (List.mem_append_left _ inside))

theorem held_mem (held : block ∈ blocks) (small : classOf block.layout < classCount) :
    (block.ptr, classOf block.layout) ∈ carved :=
  mem_carvedFor.mp ((books.divided _ small).mem_iff.mp
    (List.mem_append_right _ (mem_heldOf.mpr ⟨block, held, rfl, rfl⟩)))

theorem nodup_class (cls : idx < classCount) : (frees idx ++ heldOf blocks idx).Nodup := by
  rw [(books.divided idx cls).nodup_iff]
  exact books.nodup_carved.sublist (List.filter_sublist.map Prod.fst)

/-- What was carved lies apart from a block that does not start there. -/
theorem carved_apart_room (inside : (addr, idx) ∈ carved) (held : block ∈ blocks)
    (different : addr ≠ block.ptr) : Region.Apart ⟨addr, classSize idx⟩ block.room := by
  by_cases large : block.large = true
  · rw [SlabBlock.room_of_large large]
    exact books.carved_apart_large inside held large
  · have small := SlabBlock.small_iff.mp (Bool.eq_false_iff.mpr large)
    rw [SlabBlock.room_of_small small]
    rcases books.carved_apart inside (books.held_mem held small) with same | apart
    · exact absurd (congrArg Prod.fst same) different
    · exact apart

theorem free_ne (cls : idx < classCount) (inside : addr ∈ frees idx) (held : block ∈ blocks) :
    addr ≠ block.ptr := by
  rintro rfl
  have mine := books.free_mem cls inside
  by_cases large : block.large = true
  · exact start_ne (books.carved_apart_large mine held large) (books.carved_pos mine)
      (books.asked block held).2 rfl
  · have small := SlabBlock.small_iff.mp (Bool.eq_false_iff.mpr large)
    have same := books.carved_cls mine (books.held_mem held small)
    subst same
    exact (List.nodup_append'.mp (books.nodup_class cls)).2.2 inside
      (mem_heldOf.mpr ⟨block, held, rfl, rfl⟩)

/-- A block that is free in one class is not free in another one. -/
theorem free_cls {next : Nat} (cls : idx < classCount) (inside : addr ∈ frees idx)
    (also : next < classCount) (there : addr ∈ frees next) : idx = next :=
  books.carved_cls (books.free_mem cls inside) (books.free_mem also there)

theorem held_eq (held : block ∈ blocks) (also : other ∈ blocks) (same : block.ptr = other.ptr) :
    block = other :=
  List.inj_on_of_nodup_map books.distinct held also same

theorem free_apart_room (cls : idx < classCount) (inside : addr ∈ frees idx) (held : block ∈ blocks) :
    Region.Apart ⟨addr, classSize idx⟩ block.room :=
  books.carved_apart_room (books.free_mem cls inside) held (books.free_ne cls inside held)

theorem link_apart_room (there : chunk ∈ chunks) (held : block ∈ blocks) :
    Region.Apart ⟨chunk.link, Bytes.wordSize⟩ block.room := by
  by_cases large : block.large = true
  · rw [SlabBlock.room_of_large large]
    exact (books.chunk_apart_large there held large).within SlabChunk.link_within (Region.Within.refl _)
  · have small := SlabBlock.small_iff.mp (Bool.eq_false_iff.mpr large)
    rw [SlabBlock.room_of_small small]
    exact (books.carved_apart_link (books.held_mem held small) there).symm

theorem rooms_apart (held : block ∈ blocks) (also : other ∈ blocks) (different : block ≠ other) :
    block.room.Apart other.room := by
  have starts_ : block.ptr ≠ other.ptr := fun same => different (books.held_eq held also same)
  by_cases large : block.large = true
  · by_cases largeToo : other.large = true
    · rw [SlabBlock.room_of_large large, SlabBlock.room_of_large largeToo]
      exact books.larges_apart held large also largeToo different
    · have small := SlabBlock.small_iff.mp (Bool.eq_false_iff.mpr largeToo)
      rw [SlabBlock.room_of_small small]
      exact (books.carved_apart_room (books.held_mem also small) held starts_.symm).symm
  · have small := SlabBlock.small_iff.mp (Bool.eq_false_iff.mpr large)
    rw [SlabBlock.room_of_small small]
    exact books.carved_apart_room (books.held_mem held small) also starts_

end Books
end SlabProgram
end TerseDsa
