import TerseDsa.Slab.Books

namespace TerseDsa

open Foundation AlVtable

/-!
# How the books change

One lemma for each way in which a block or a chunk comes, goes or changes its
layout.
-/

namespace SlabProgram

open Slab

variable {blocks after : List SlabBlock} {carved : List (Nat × Nat)} {chunks front back : List SlabChunk}
  {frees : Nat -> List Nat} {block : SlabBlock} {chunk : SlabChunk} {layout : Layout}
  {addr idx other node : Nat} {rest : List Nat}

theorem heldOf_cons : heldOf (block :: blocks) idx =
    if classOf block.layout = idx then block.ptr :: heldOf blocks idx else heldOf blocks idx := by
  unfold heldOf
  by_cases same : classOf block.layout = idx
  · rw [if_pos same, List.filter_cons_of_pos (by rw [beq_iff_eq]; exact same), List.map_cons]
  · rw [if_neg same, List.filter_cons_of_neg (by rw [beq_iff_eq]; exact same)]

theorem carvedFor_cons : carvedFor ((addr, other) :: carved) idx =
    if other = idx then addr :: carvedFor carved idx else carvedFor carved idx := by
  unfold carvedFor
  by_cases same : other = idx
  · rw [if_pos same, List.filter_cons_of_pos (by rw [beq_iff_eq]; exact same), List.map_cons]
  · rw [if_neg same, List.filter_cons_of_neg (by rw [beq_iff_eq]; exact same)]

theorem larges_cons_small (small : classOf block.layout < classCount) :
    larges (block :: blocks) = larges blocks := by
  unfold larges
  rw [List.filter_cons_of_neg]
  rw [SlabBlock.small_iff.mpr small]
  exact Bool.false_ne_true

theorem larges_cons_large (large : block.large = true) :
    larges (block :: blocks) = block :: larges blocks := List.filter_cons_of_pos large

theorem taken_cons_small (small : classOf block.layout < classCount) :
    taken chunks (block :: blocks) = taken chunks blocks := by
  unfold taken
  rw [larges_cons_small small]

theorem taken_cons_large (large : block.large = true) :
    (taken chunks (block :: blocks)).Perm (block.entry :: taken chunks blocks) := by
  unfold taken
  rw [larges_cons_large large, List.map_cons]
  exact List.perm_middle

theorem taken_perm (perm : blocks.Perm after) : (taken chunks blocks).Perm (taken chunks after) :=
  List.Perm.append_left _ ((perm.filter SlabBlock.large).map SlabBlock.entry)

/-- Pairwise apart in one order is pairwise apart in any. -/
theorem apart_perm {left right : List (Nat × Layout)} (perm : left.Perm right)
    (apart : left.Pairwise fun left right => (Parent.region left).Apart (Parent.region right)) :
    right.Pairwise fun left right => (Parent.region left).Apart (Parent.region right) :=
  perm.pairwise apart fun apart => Region.Apart.symm apart

namespace Books

theorem perm (books : Books blocks carved chunks frees) (perm : blocks.Perm after) :
    Books after carved chunks frees where
  live := books.live
  apart := apart_perm (taken_perm perm) books.apart
  logged := books.logged
  divided idx cls :=
    (List.Perm.append_left _ ((perm.filter _).map SlabBlock.ptr)).symm.trans (books.divided idx cls)
  distinct := (perm.map SlabBlock.ptr).nodup_iff.mp books.distinct
  asked block inside := books.asked block (perm.mem_iff.mpr inside)
  aligned block inside := books.aligned block (perm.mem_iff.mpr inside)

theorem holdSmall (books : Books blocks carved chunks frees) (asked : block.layout.Asked)
    (some_ : 0 < block.layout.size) (aligned : block.layout.align ∣ block.ptr)
    (small : classOf block.layout < classCount)
    (fresh : forall other, other ∈ blocks -> block.ptr ≠ other.ptr)
    {marks : List (Nat × Nat)} {more : List SlabChunk} {left : Nat -> List Nat}
    (live : forall chunk, chunk ∈ more -> chunk.Live)
    (same : more.map SlabChunk.entry = chunks.map SlabChunk.entry)
    (logged : marks.Perm (more.flatMap SlabChunk.marks))
    (divided : forall idx, idx < classCount -> (left idx ++ heldOf (block :: blocks) idx).Perm
      (carvedFor marks idx)) :
    Books (block :: blocks) marks more left where
  live := live
  apart := by
    have apart := books.apart
    rw [taken_cons_small small]
    unfold taken at apart ⊢
    rw [same]
    exact apart
  logged := logged
  divided := divided
  distinct := by
    rw [List.map_cons, List.nodup_cons]
    refine ⟨?_, books.distinct⟩
    intro inside
    rcases List.mem_map.mp inside with ⟨other, there, equal⟩
    exact fresh other there equal.symm
  asked := by
    intro other inside
    rcases List.mem_cons.mp inside with rfl | before
    · exact ⟨asked, some_⟩
    · exact books.asked other before
  aligned := by
    intro other inside
    rcases List.mem_cons.mp inside with rfl | before
    · exact aligned
    · exact books.aligned other before

/-- The first block of a free list is held from now on. -/
theorem takeFree (books : Books blocks carved chunks frees) (asked : layout.Asked)
    (some_ : 0 < layout.size) (small : classOf layout < classCount)
    (split_ : frees (classOf layout) = node :: rest) :
    Books (⟨node, layout⟩ :: blocks) carved chunks (Function.update frees (classOf layout) rest) := by
  have mine : node ∈ frees (classOf layout) := by
    rw [split_]
    exact List.mem_cons_self
  have aligned := books.carved_aligned asked (books.free_mem small mine)
  refine books.holdSmall asked some_ aligned small (fun other there => books.free_ne small mine there)
    books.live rfl books.logged ?_
  intro idx cls
  have divided := books.divided idx cls
  rw [heldOf_cons]
  by_cases same : classOf layout = idx
  · subst same
    rw [if_pos rfl, Function.update_self]
    rw [split_] at divided
    exact List.perm_middle.trans divided
  · rw [if_neg same, Function.update_of_ne (Ne.symm same)]
    exact divided

end Books

end SlabProgram

namespace SlabChunk

open Slab

variable {chunk : SlabChunk}

/-- Where the next block is carved. -/
def tip (chunk : SlabChunk) : Nat := chunk.start + chunk.carved * classSize chunk.cls

/-- The chunk after it was carved. -/
def further (chunk : SlabChunk) : SlabChunk := { chunk with carved := chunk.carved + 1 }

theorem cells_further : chunk.further.cells = chunk.cells ++ [chunk.tip] := by
  unfold cells starts further
  dsimp only
  rw [List.range_succ, List.map_append, List.map_singleton]
  rfl

theorem marks_further : chunk.further.marks = chunk.marks ++ [(chunk.tip, chunk.cls)] := by
  unfold marks
  rw [cells_further, List.map_append, List.map_singleton]
  rfl

theorem tip_mem : chunk.tip ∈ chunk.further.cells := by
  rw [cells_further]
  exact List.mem_append_right _ List.mem_cons_self

theorem tip_within (live : Live chunk) (room : (chunk.carved + 1) * classSize chunk.cls ≤ chunkRoom) :
    Region.Within ⟨chunk.tip, classSize chunk.cls⟩ (Parent.region chunk.entry) := by
  have live : Live chunk.further := ⟨live.cls, room, live.real, live.fits, live.aligned⟩
  have within := cell_within_entry live tip_mem
  exact within

theorem further_live (live : Live chunk) (room : (chunk.carved + 1) * classSize chunk.cls ≤ chunkRoom) :
    Live chunk.further :=
  ⟨live.cls, room, live.real, live.fits, live.aligned⟩

end SlabChunk

namespace SlabProgram

open Slab

variable {blocks after : List SlabBlock} {carved : List (Nat × Nat)} {chunks front back : List SlabChunk}
  {frees : Nat -> List Nat} {block : SlabBlock} {chunk : SlabChunk} {layout : Layout}
  {addr idx other node : Nat} {rest : List Nat}

namespace Books

/-- The next block of a chunk lies apart from all that were carved. -/
theorem tip_apart (books : Books blocks carved chunks frees) (there : chunk ∈ chunks)
    (room : (chunk.carved + 1) * classSize chunk.cls ≤ chunkRoom) (inside : (addr, idx) ∈ carved) :
    Region.Apart ⟨chunk.tip, classSize chunk.cls⟩ ⟨addr, classSize idx⟩ := by
  rcases books.mem_carved.mp inside with ⟨second, here, rfl, its⟩
  by_cases same : chunk = second
  · subst same
    have further : addr ∈ chunk.further.cells := by
      rw [SlabChunk.cells_further]
      exact List.mem_append_left _ its
    refine starts_apart SlabChunk.tip_mem further ?_
    rintro rfl
    have once : chunk.further.cells.Nodup := nodup_starts (books.carved_pos inside)
    rw [SlabChunk.cells_further] at once
    exact (List.nodup_append'.mp once).2.2 its List.mem_cons_self
  · exact (books.chunks_apart there here same).within
      (SlabChunk.tip_within (books.live _ there) room) (SlabChunk.cell_within_entry (books.live _ here) its)

/-- The next block of a chunk is carved and held from now on. -/
theorem carveNext (books : Books blocks carved (front ++ chunk :: back) frees) (asked : layout.Asked)
    (some_ : 0 < layout.size) (mine : chunk.cls = classOf layout)
    (room : (chunk.carved + 1) * classSize chunk.cls ≤ chunkRoom) :
    Books (⟨chunk.tip, layout⟩ :: blocks) ((chunk.tip, classOf layout) :: carved)
      (front ++ chunk.further :: back) frees := by
  have there : chunk ∈ front ++ chunk :: back := List.mem_append_right _ List.mem_cons_self
  have live := SlabChunk.further_live (books.live chunk there) room
  have small : classOf layout < classCount := mine ▸ live.cls
  have size : 0 < classSize chunk.cls := by
    have facts := (classSize_facts _ live.cls).1
    exact Nat.lt_of_lt_of_le (by decide) facts
  have aligned : layout.align ∣ chunk.tip := by
    unfold SlabChunk.tip
    rw [mine]
    exact aligned_of_classOf asked small live.aligned
  refine books.holdSmall asked some_ aligned small ?_ ?_ ?_ ?_ ?_
  · intro other held
    by_cases large : other.large = true
    · exact start_ne ((books.chunk_apart_large there held large).within
        (SlabChunk.tip_within (books.live _ there) room) (Region.Within.refl _)) size
        (books.asked other held).2
    · have its := SlabBlock.small_iff.mp (Bool.eq_false_iff.mpr large)
      have carved_ := books.held_mem held its
      exact start_ne (books.tip_apart there room carved_) size (books.carved_pos carved_)
  · intro second inside
    rcases List.mem_append.mp inside with before | later
    · exact books.live second (List.mem_append_left _ before)
    · rcases List.mem_cons.mp later with rfl | later
      · exact live
      · exact books.live second (List.mem_append_right _ (List.mem_cons_of_mem _ later))
  · rw [List.map_append, List.map_append]
    rfl
  · have middle := @List.perm_middle _ (chunk.tip, chunk.cls)
      (front.flatMap SlabChunk.marks ++ chunk.marks) (back.flatMap SlabChunk.marks)
    refine (books.logged.cons _).trans ?_
    rw [List.flatMap_append, List.flatMap_append, List.flatMap_cons, List.flatMap_cons,
      SlabChunk.marks_further, ← mine]
    simpa only [List.append_assoc, List.singleton_append] using middle.symm
  · intro idx cls
    have divided := books.divided idx cls
    rw [heldOf_cons, carvedFor_cons]
    by_cases same : classOf layout = idx
    · rw [if_pos same, if_pos same]
      exact List.perm_middle.trans (divided.cons _)
    · rw [if_neg same, if_neg same]
      exact divided

/-- A chunk is added that lies apart from all there is. -/
theorem addChunk (books : Books blocks carved chunks frees) (live : chunk.Live)
    (empty : chunk.carved = 0) (apart : forall entry, entry ∈ taken chunks blocks ->
      (Parent.region chunk.entry).Apart (Parent.region entry)) :
    Books blocks carved (chunk :: chunks) frees where
  live second inside := by
    rcases List.mem_cons.mp inside with rfl | before
    · exact live
    · exact books.live second before
  apart := List.pairwise_cons.mpr ⟨apart, books.apart⟩
  logged := by
    have nothing : chunk.marks = [] := by
      unfold SlabChunk.marks SlabChunk.cells starts
      rw [empty]
      rfl
    rw [List.flatMap_cons, nothing]
    exact books.logged
  divided := books.divided
  distinct := books.distinct
  asked := books.asked
  aligned := books.aligned

/-- A large block is held from now on that lies apart from all there is. -/
theorem addLarge (books : Books blocks carved chunks frees) (asked : block.layout.Asked)
    (some_ : 0 < block.layout.size) (aligned : block.layout.align ∣ block.ptr)
    (large : block.large = true) (apart : forall entry, entry ∈ taken chunks blocks -> block.region.Apart (Parent.region entry)) :
    Books (block :: blocks) carved chunks frees where
  live := books.live
  apart := apart_perm (taken_cons_large large).symm (List.pairwise_cons.mpr ⟨apart, books.apart⟩)
  logged := books.logged
  divided idx cls := by
    have bound : classOf block.layout ≠ idx := by
      rw [SlabBlock.large_iff.mp large]
      exact Ne.symm (Nat.ne_of_lt cls)
    rw [heldOf_cons, if_neg bound]
    exact books.divided idx cls
  distinct := by
    rw [List.map_cons, List.nodup_cons]
    refine ⟨?_, books.distinct⟩
    intro inside
    rcases List.mem_map.mp inside with ⟨other, there, equal⟩
    by_cases also : other.large = true
    · have entry : other.entry ∈ taken chunks blocks :=
        List.mem_append_right _ (List.mem_map_of_mem (mem_larges.mpr ⟨there, also⟩))
      exact start_ne (apart _ entry) some_ (books.asked other there).2 equal.symm
    · have small := SlabBlock.small_iff.mp (Bool.eq_false_iff.mpr also)
      have carved_ := books.held_mem there small
      rcases books.mem_carved.mp carved_ with ⟨second, here, cls, its⟩
      have entry : second.entry ∈ taken chunks blocks :=
        List.mem_append_left _ (List.mem_map_of_mem here)
      have within := SlabChunk.cell_within_entry (books.live second here) its
      rw [cls] at within
      exact start_ne ((apart _ entry).within (Region.Within.refl _) within) some_
        (books.carved_pos carved_) equal.symm
  asked := by
    intro other inside
    rcases List.mem_cons.mp inside with rfl | before
    · exact ⟨asked, some_⟩
    · exact books.asked other before
  aligned := by
    intro other inside
    rcases List.mem_cons.mp inside with rfl | before
    · exact aligned
    · exact books.aligned other before

/-- A block is given up; if it is small, it is free in its class from now on. -/
theorem release (books : Books (block :: blocks) carved chunks frees) {left : Nat -> List Nat}
    (divided : forall idx, idx < classCount -> (left idx ++ heldOf blocks idx).Perm (carvedFor carved idx)) :
    Books blocks carved chunks left where
  live := books.live
  apart := by
    refine books.apart.sublist ?_
    exact List.Sublist.append_left (((List.sublist_cons_self block blocks).filter _).map _) _
  logged := books.logged
  divided := divided
  distinct := (List.nodup_cons.mp books.distinct).2
  asked other inside := books.asked other (List.mem_cons_of_mem _ inside)
  aligned other inside := books.aligned other (List.mem_cons_of_mem _ inside)

theorem dropLarge (books : Books (block :: blocks) carved chunks frees) (large : block.large = true) :
    Books blocks carved chunks frees := by
  refine books.release ?_
  intro idx cls
  have divided := books.divided idx cls
  have bound : classOf block.layout ≠ idx := by
    rw [SlabBlock.large_iff.mp large]
    exact Ne.symm (Nat.ne_of_lt cls)
  rw [heldOf_cons, if_neg bound] at divided
  exact divided

theorem dropSmall (books : Books (block :: blocks) carved chunks frees) :
    Books blocks carved chunks (Function.update frees (classOf block.layout)
      (block.ptr :: frees (classOf block.layout))) := by
  refine books.release ?_
  intro idx cls
  have divided := books.divided idx cls
  rw [heldOf_cons] at divided
  by_cases same : classOf block.layout = idx
  · subst same
    rw [if_pos rfl] at divided
    rw [Function.update_self]
    exact List.perm_middle.symm.trans divided
  · rw [if_neg same] at divided
    rw [Function.update_of_ne (Ne.symm same)]
    exact divided

/-- A small block gets another layout of its class. -/
theorem exchangeSmall (books : Books (block :: blocks) carved chunks frees) (asked : layout.Asked)
    (some_ : 0 < layout.size) (small : classOf block.layout < classCount)
    (same : classOf layout = classOf block.layout) :
    Books (⟨block.ptr, layout⟩ :: blocks) carved chunks frees := by
  have once := List.nodup_cons.mp books.distinct
  have without : Books blocks carved chunks _ := books.dropSmall
  have mine := books.held_mem List.mem_cons_self small
  rw [← same] at mine
  refine without.holdSmall asked some_ (books.carved_aligned asked mine) (same ▸ small) ?_ books.live rfl
    books.logged ?_
  · intro other held equal
    exact once.1 (equal ▸ List.mem_map_of_mem held)
  · intro idx cls
    have divided := books.divided idx cls
    rw [heldOf_cons] at divided ⊢
    rw [same]
    exact divided

end Books
end SlabProgram
end TerseDsa
