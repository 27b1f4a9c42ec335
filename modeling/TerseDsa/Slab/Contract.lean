import TerseDsa.Slab.Safety
import TerseDsa.Alloc.Booked

namespace TerseDsa

open Foundation Run AlVtable

/-!
# The contract of a slab

The hooks of a slab meet the contract of an allocator's hooks, over any parent
that does.  The books say which blocks are out and where; here it is shown that
no hook touches a byte of the others.
-/

namespace Slab

open SlabProgram

variable {others out : List (Nat × Layout)} {slab : Slab Parent} {parent later : Parent} {blocks rest : List SlabBlock}
  {carved : List (Nat × Nat)} {chunks : List SlabChunk} {frees : Nat -> List Nat} {block : SlabBlock}
  {layout old : Layout} {ptr newSize : Nat}

/-- The blocks as a program holds them. -/
def held (out : List (Nat × Layout)) : List SlabBlock := out.map fun block => ⟨block.1, block.2⟩

/-- The blocks that are out of a slab, whose parent has also other blocks out. -/
structure Lends (others : List (Nat × Layout)) (world : World (Slab Parent) Parent) (out : List (Nat × Layout)) :
    Prop where
  books : exists carved, Valid others ⟨world, held out, carved⟩
  good : Parent.ledger.good world.below

theorem Lends.perm {world : World (Slab Parent) Parent} {more : List (Nat × Layout)} (lends : Lends others world out)
    (perm : out.Perm more) : Lends others world more := by
  rcases world with ⟨slab, parent⟩
  rcases lends with ⟨⟨carved, chunks, frees, invariant⟩, good⟩
  exact ⟨⟨carved, chunks, frees, invariant.perm (perm.map _)⟩, good⟩

/-! ## Where the blocks are -/

/-- The blocks behind the first one are other blocks. -/
theorem first_ne (books : Books (⟨ptr, layout⟩ :: held out) carved chunks frees) :
    forall block, block ∈ out -> (⟨ptr, layout⟩ : SlabBlock) ≠ ⟨block.1, block.2⟩ := by
  intro block inside same
  have there : (⟨block.1, block.2⟩ : SlabBlock) ∈ held out := List.mem_map_of_mem inside
  rw [← same] at there
  exact (List.nodup_cons.mp books.distinct.of_map).1 there

/-- The room of a block lies in what the parent has out. -/
theorem room_within (invariant : SlabProgram.Invariant ⟨⟨slab, parent⟩, blocks, carved⟩ others chunks frees)
    (inside : block ∈ blocks) : exists entry, entry ∈ parent.out ∧ block.room.Within (Parent.region entry) := by
  have books : Books blocks carved chunks frees := invariant.books
  by_cases large : block.large = true
  · refine ⟨block.entry, invariant.taken_mem (List.mem_append_right _ ?_), ?_⟩
    · exact List.mem_map_of_mem (mem_larges.mpr ⟨inside, large⟩)
    · rw [SlabBlock.room_of_large large]
      exact Region.Within.refl _
  · have small := SlabBlock.small_iff.mp (Bool.eq_false_iff.mpr large)
    rcases books.mem_carved.mp (books.held_mem inside small) with ⟨chunk, there, cls, mine⟩
    have within := SlabChunk.cell_within_entry (books.live chunk there) mine
    rw [cls] at within
    rw [SlabBlock.room_of_small small]
    exact ⟨chunk.entry, invariant.taken_mem (List.mem_append_left _ (List.mem_map_of_mem there)), within⟩

/-- Where the parent's blocks are as they were, so are the slab's. -/
theorem intact_of_parent {before after : Bytes}
    (invariant : SlabProgram.Invariant ⟨⟨slab, parent⟩, held out, carved⟩ others chunks frees)
    (intact : Intact (Parent.ledger.live parent) before after) : Intact (Booked.those out) before after := by
  intro block inside addr covers
  rcases room_within invariant (List.mem_map_of_mem inside) with ⟨entry, isOut, within⟩
  have wide := (SlabBlock.region_within.trans within : Region.Within _ (Parent.region entry))
  exact intact entry isOut addr ⟨Nat.le_trans wide.1 covers.1, Nat.lt_of_lt_of_le covers.2 wide.2⟩

/-- Where all of the parent's blocks but one are as they were, so are the slab's but that one. -/
theorem intact_of_others {before after : Bytes}
    (invariant : SlabProgram.Invariant ⟨⟨slab, parent⟩, held ((ptr, layout) :: out), carved⟩ others chunks frees)
    (large : classOf layout = classCount)
    (intact : Intact (Parent.ledger.live parent \ {(ptr, layout)}) before after) :
    Intact (Booked.those out) before after := by
  intro block inside addr covers
  have mine : (⟨ptr, layout⟩ : SlabBlock) ∈ held ((ptr, layout) :: out) := List.mem_cons_self
  have there : (⟨block.1, block.2⟩ : SlabBlock) ∈ held ((ptr, layout) :: out) :=
    List.mem_cons_of_mem _ (List.mem_map_of_mem inside)
  rcases room_within invariant there with ⟨entry, isOut, within⟩
  have wide := (SlabBlock.region_within.trans within : Region.Within _ (Parent.region entry))
  have inEntry : (Parent.region entry).Covers addr :=
    ⟨Nat.le_trans wide.1 covers.1, Nat.lt_of_lt_of_le covers.2 wide.2⟩
  refine intact entry ⟨isOut, ?_⟩ addr inEntry
  -- the two blocks lie apart, so that the other one cannot lie within this one's
  rintro rfl
  have apart := invariant.books.rooms_apart mine there (first_ne invariant.books block inside)
  rw [SlabBlock.room_of_large (SlabBlock.large_iff.mpr large)] at apart
  exact (apart.within (Region.Within.refl _) SlabBlock.region_within).not_covers inEntry covers

theorem small_placed (books : Books blocks carved chunks frees) (inside : block ∈ blocks)
    (small : classOf block.layout < classCount) :
    0 < block.ptr ∧ block.ptr + block.layout.size < sizeRange := by
  rcases books.mem_carved.mp (books.held_mem inside small) with ⟨chunk, there, cls, mine⟩
  have live := books.live chunk there
  have within := SlabChunk.cell_within_entry live mine
  have room := (serves_classOf small).1
  have real := live.real
  have fits := live.fits
  rw [cls, SlabChunk.region_entry] at within
  unfold Region.Within Region.stop at within
  dsimp only at within
  omega

/-- A block that the books list lies apart from the others, if it lies in memory. -/
theorem fresh (books : Books (⟨ptr, layout⟩ :: held out) carved chunks frees)
    (placed : classOf layout = classCount -> 0 < ptr ∧ ptr + layout.size < sizeRange) :
    Fresh (Booked.those out) ptr layout := by
  have mine : (⟨ptr, layout⟩ : SlabBlock) ∈ ⟨ptr, layout⟩ :: held out := List.mem_cons_self
  have lies : 0 < ptr ∧ ptr + layout.size < sizeRange := by
    by_cases large : classOf layout = classCount
    · exact placed large
    · exact small_placed books mine (Nat.lt_of_le_of_ne classOf_le large)
  refine ⟨lies.1, lies.2, books.aligned _ mine, fun other inside => ?_⟩
  have there : (⟨other.1, other.2⟩ : SlabBlock) ∈ held out := List.mem_map_of_mem inside
  exact (books.rooms_apart mine (List.mem_cons_of_mem _ there) (first_ne books other inside)).within
    SlabBlock.region_within SlabBlock.region_within

/-! ## What the hooks do to memory -/

/-- What a run leaves of the parent's own blocks. -/
def Spares (before later : Parent) : Prop :=
  Parent.ledger.good later ∧ Intact (Parent.ledger.live before) before.bytes later.bytes

theorem Spares.refl (good : Parent.ledger.good parent) : Spares parent parent := ⟨good, Intact.refl _ _⟩

omit parent in
theorem allows_takeCarve (idx size : Nat) : Allows (takeCarve slab idx size) later fun _ after => after = later := by
  simp only [takeCarve, allows_bind]
  exact allows_demand fun _ _ => (allows_pure _ _ _).mpr rfl

/-- A small block is handed out, and a chunk may be had for it. -/
theorem allows_takeSmall (good : Parent.ledger.good parent) (idx : Nat) :
    Allows (takeSmall Parent.toAl slab idx) parent fun _ later => Spares parent later := by
  unfold takeSmall
  cases head : (slab.classes idx).freeHead with
  | some node =>
      simp only [head, readLink, allows_bind, Run.allows_get, allows_pure]
      exact Spares.refl good
  | none =>
      simp only [head, carve]
      by_cases room : canCarve (slab.classes idx) (classSize idx) = true
      · rw [if_pos room]
        refine (allows_takeCarve idx _).mono ?_
        rintro _ _ rfl
        exact Spares.refl good
      · have asked : chunkLayout.Asked := ⟨by decide, by decide, by decide⟩
        rw [if_neg room]
        simp only [addChunk, allows_bind]
        refine (Parent.meets.serves.ends_allocate good trivial asked trivial).allows.mono ?_
        rintro answer middle ⟨grants, _⟩
        cases answer with
        | none =>
            simp only [allows_pure, Bool.false_eq_true, if_false]
            exact ⟨grants.good, grants.intact⟩
        | some start =>
            have fresh := grants.outcome.1
            have within : Region.Within ⟨start + chunkRoom, Bytes.wordSize⟩ (Parent.region (start, chunkLayout)) :=
              @SlabChunk.link_within ⟨start, idx, 0⟩
            simp only [writeLink, allows_bind, allows_modify, allows_pure, if_true]
            refine (allows_takeCarve idx _).mono ?_
            rintro _ _ rfl
            refine ⟨grants.good, grants.intact.trans (Intact.of_keeps (Bytes.keeps_setLink _ _ _) ?_)⟩
            exact fun entry isOut => (fresh.apart entry isOut).within within (Region.Within.refl _)

/-- A request touches no byte of the parent's blocks. -/
theorem allows_alloc (parent_ : slab.parent = some Parent.toAl) (good : Parent.ledger.good parent)
    (asked : layout.Asked) : Allows (Slab.alloc layout) ⟨slab, parent⟩ fun answer later =>
      Spares parent later.below ∧ forall addr, answer = some addr -> classOf layout = classCount ->
        0 < addr ∧ addr + layout.size < sizeRange := by
  simp only [Slab.alloc, assertSlab, allows_bind, World.allows_self, parent_]
  apply allows_demand
  rintro _ ⟨⟩
  rw [allows_require]
  intro some_
  by_cases large : classOf layout = classCount
  · rw [if_pos large]
    simp only [allows_bind, World.allows_under]
    refine (Parent.meets.serves.ends_allocate good trivial asked trivial).allows.mono ?_
    rintro answer middle ⟨grants, _⟩
    cases answer with
    | none =>
        simp only [allows_pure]
        exact ⟨⟨grants.good, grants.intact⟩, fun _ impossible => (by cases impossible)⟩
    | some addr =>
        simp only [allows_bind, World.allows_setSelf, allows_pure]
        refine ⟨⟨grants.good, grants.intact⟩, ?_⟩
        rintro _ ⟨⟩ _
        exact ⟨grants.outcome.1.real, grants.outcome.1.room⟩
  · rw [if_neg large]
    simp only [allows_bind, World.allows_under]
    refine (allows_takeSmall good _).mono ?_
    rintro ⟨ptr, taken⟩ middle spares
    cases ptr with
    | none =>
        simp only [allows_bind, World.allows_setSelf, allows_pure]
        exact ⟨spares, fun _ impossible => (by cases impossible)⟩
    | some addr =>
        simp only [allows_bind, World.allows_setSelf, allows_pure]
        exact ⟨spares, fun _ _ impossible => absurd impossible large⟩

/-- Giving a block back touches no byte of the others. -/
theorem allows_dealloc
    (invariant : SlabProgram.Invariant ⟨⟨slab, parent⟩, held ((ptr, layout) :: out), carved⟩ others chunks frees)
    (good : Parent.ledger.good parent) : Allows (Slab.dealloc ptr layout) ⟨slab, parent⟩ fun _ later =>
      Parent.ledger.good later.below ∧ Intact (Booked.those out) parent.bytes later.below.bytes := by
  have books : Books (⟨ptr, layout⟩ :: held out) carved chunks frees := invariant.books
  have parent_ : slab.parent = some Parent.toAl := invariant.parent
  have mine : (⟨ptr, layout⟩ : SlabBlock) ∈ ⟨ptr, layout⟩ :: held out := List.mem_cons_self
  rcases books.asked _ mine with ⟨asked, some_⟩
  simp only [Slab.dealloc, assertSlab, allows_bind, World.allows_self, parent_]
  apply allows_demand
  rintro _ ⟨⟩
  by_cases large : classOf layout = classCount
  · have isOut := large_out invariant (SlabBlock.large_iff.mpr large)
    rw [if_pos large]
    simp only [allows_bind, allows_require, World.allows_setSelf, World.allows_under]
    intro _
    refine (Parent.meets.serves.ends_deallocate good isOut asked.isAlign some_).allows.mono ?_
    exact fun _ later releases => ⟨releases.good, intact_of_others invariant large releases.intact⟩
  · have small : classOf layout < classCount := Nat.lt_of_le_of_ne classOf_le large
    rw [if_neg large]
    simp only [allows_bind, allows_require, World.allows_under, writeLink, allows_modify,
      World.allows_setSelf]
    intro _ _
    refine ⟨good, Intact.of_keeps (Bytes.keeps_setLink _ _ _) fun block inside => ?_⟩
    have there : (⟨block.1, block.2⟩ : SlabBlock) ∈ ⟨ptr, layout⟩ :: held out :=
      List.mem_cons_of_mem _ (List.mem_map_of_mem inside)
    have apart := books.rooms_apart mine there (first_ne books block inside)
    rw [SlabBlock.room_of_small small] at apart
    exact apart.within (books.link_within (books.held_mem mine small)) SlabBlock.region_within

/-- What a resize leaves of the blocks. -/
structure Moved (out : List (Nat × Layout)) (ptr : Nat) (old : Layout) (newSize : Nat) (before : Parent)
    (answer : Option Addr) (later : Parent) : Prop where
  good : Parent.ledger.good later
  intact : Intact (Booked.those out) before.bytes later.bytes
  outcome :
    match answer with
    | none => Intact (Booked.those ((ptr, old) :: out)) before.bytes later.bytes
    | some addr => Carries before.bytes later.bytes ptr addr (min old.size newSize) ∧
        (classOf ⟨newSize, old.align⟩ = classCount -> 0 < addr ∧ addr + newSize < sizeRange)

/-- A large block that stays large is the parent's. -/
theorem Moved.of_resizes {answer : Option Addr}
    (invariant : SlabProgram.Invariant ⟨⟨slab, parent⟩, held ((ptr, old) :: out), carved⟩ others chunks frees)
    (large : classOf old = classCount) (resizes : Parent.ledger.Resizes ptr old newSize parent answer later) :
    Moved out ptr old newSize parent answer later := by
  refine ⟨resizes.good, intact_of_others invariant large resizes.intact, ?_⟩
  cases answer with
  | none => exact intact_of_parent invariant resizes.outcome.2
  | some addr => exact ⟨resizes.outcome.2.2, fun _ => ⟨resizes.outcome.1.real, resizes.outcome.1.room⟩⟩

theorem Moved.refl (good : Parent.ledger.good parent) : Moved out ptr old newSize parent none parent :=
  ⟨good, Intact.refl _ _, Intact.refl _ _⟩

theorem allows_resize (invariant : SlabProgram.Invariant ⟨⟨slab, parent⟩, held ((ptr, old) :: out), carved⟩ others chunks frees)
    (good : Parent.ledger.good parent) (some_ : 0 < newSize) (fits : newSize < sizeRange) :
    Allows (Slab.resize ptr old newSize) ⟨slab, parent⟩ fun done later =>
      Moved out ptr old newSize parent (if done = true then some ptr else none) later.below := by
  have parent_ : slab.parent = some Parent.toAl := invariant.parent
  rcases invariant.books.asked ⟨ptr, old⟩ List.mem_cons_self with ⟨asked, positive⟩
  simp only [Slab.resize, assertSlab, allows_bind, World.allows_self, parent_]
  apply allows_demand
  rintro _ ⟨⟩
  rw [allows_require]
  intro _
  by_cases stays : staysLarge old newSize = true
  · rcases staysLarge_iff.mp stays with ⟨before, _⟩
    have isOut := large_out invariant (SlabBlock.large_iff.mpr before)
    rw [if_pos stays, World.allows_under]
    refine (Parent.meets.serves.ends_resizeInPlace good isOut asked.isAlign positive some_ fits).allows.mono ?_
    exact fun done later both => Moved.of_resizes invariant before both.1
  · rw [if_neg stays, allows_pure]
    by_cases same : classOf old = classOf ⟨newSize, old.align⟩
    · rw [beq_iff_eq.mpr same, if_pos rfl]
      refine ⟨good, Intact.refl _ _, fun _ _ => rfl, fun large => ?_⟩
      exact absurd (staysLarge_iff.mpr ⟨same.trans large, large⟩) stays
    · rw [beq_eq_false_iff_ne.mpr same, if_neg Bool.false_ne_true]
      exact Moved.refl good

theorem allows_remap (invariant : SlabProgram.Invariant ⟨⟨slab, parent⟩, held ((ptr, old) :: out), carved⟩ others chunks frees)
    (good : Parent.ledger.good parent) (some_ : 0 < newSize) (fits : newSize < sizeRange) :
    Allows (Slab.remap ptr old newSize) ⟨slab, parent⟩ fun answer later =>
      Moved out ptr old newSize parent answer later.below := by
  have parent_ : slab.parent = some Parent.toAl := invariant.parent
  rcases invariant.books.asked ⟨ptr, old⟩ List.mem_cons_self with ⟨asked, positive⟩
  simp only [Slab.remap, assertSlab, allows_bind, World.allows_self, parent_]
  apply allows_demand
  rintro _ ⟨⟩
  rw [allows_require]
  intro _
  by_cases stays : staysLarge old newSize = true
  · rcases staysLarge_iff.mp stays with ⟨before, _⟩
    have isOut := large_out invariant (SlabBlock.large_iff.mpr before)
    rw [if_pos stays, World.allows_under]
    refine (Parent.meets.serves.ends_moveByHook good isOut asked.isAlign positive some_ fits).allows.mono ?_
    exact fun answer later both => Moved.of_resizes invariant before both.1
  · rw [if_neg stays, allows_pure]
    exact Moved.refl good

/-! ## The contract -/

/-- A block that was resized or moved, in the books and in memory. -/
theorem Moved.moves {answer : Option Addr} {world : World (Slab Parent) Parent}
    (moved : Moved out ptr old newSize parent answer world.below)
    (refused : answer = none -> exists carved, Valid others ⟨world, held ((ptr, old) :: out), carved⟩)
    (granted : forall addr, answer = some addr ->
      exists carved, Valid others ⟨world, held ((addr, ⟨newSize, old.align⟩) :: out), carved⟩) :
    Booked.Moves (Lends others) out ptr old newSize ⟨slab, parent⟩ answer world := by
  refine ⟨moved.intact, ?_⟩
  have outcome := moved.outcome
  cases answer with
  | none => exact ⟨⟨refused rfl, moved.good⟩, outcome⟩
  | some addr =>
      rcases granted addr rfl with ⟨carved, chunks, frees, invariant⟩
      refine ⟨⟨⟨carved, chunks, frees, invariant⟩, moved.good⟩, ?_, outcome.1⟩
      exact fresh invariant.books outcome.2

/-- The hooks of a slab keep what is out, and touch no byte of the blocks they are not about. -/
theorem keeps (others : List (Nat × Layout)) :
    Booked.Keeps (fun _ => True) (fun _ => True) (Lends others) (toAl Parent) where
  perm := Lends.perm
  alloc := by
    rintro ⟨slab, parent⟩ out layout ⟨⟨carved, chunks, frees, invariant⟩, good⟩ _ asked _ some_
    have parent_ : slab.parent = some Parent.toAl := invariant.parent
    have ends : Ends (allocate al layout) ⟨slab, parent⟩ fun answer later => match answer with
        | none => exists carved, Valid others ⟨later, held out, carved⟩
        | some addr => exists carved, Valid others ⟨later, held ((addr, layout) :: out), carved⟩ :=
      ends_allocate invariant asked (fun _ _ valid => ⟨_, valid⟩) fun _ _ _ valid => ⟨_, valid⟩
    refine ((AlVtable.ends_alloc_of some_ ends).and_allows (allows_alloc parent_ good asked)).mono ?_
    rintro answer later ⟨books, spares, placed⟩
    refine ⟨intact_of_parent invariant spares.2, ?_⟩
    cases answer with
    | none => exact ⟨books, spares.1⟩
    | some addr =>
        rcases books with ⟨carved, chunks, frees, now⟩
        exact ⟨⟨⟨carved, chunks, frees, now⟩, spares.1⟩, fresh now.books (placed addr rfl)⟩
  allocZeroed := fun _ impossible => by cases impossible
  resize := by
    rintro _ ⟨⟩ ⟨slab, parent⟩ out ptr old newSize ⟨⟨carved, chunks, frees, invariant⟩, good⟩ held_ some_ fits
    have first : SlabProgram.Invariant ⟨⟨slab, parent⟩, ⟨ptr, old⟩ :: held out, carved⟩ others chunks frees := invariant
    have ends : Ends (resizeInPlace al ptr old newSize) ⟨slab, parent⟩ fun done later =>
        (done = false -> exists carved, Valid others ⟨later, held ((ptr, old) :: out), carved⟩) ∧
        (done = true -> exists carved, Valid others ⟨later, held ((ptr, ⟨newSize, old.align⟩) :: out), carved⟩) := by
      apply ends_resizeInPlace first some_ fits
      · exact fun _ valid _ => ⟨fun _ => ⟨_, valid⟩, fun impossible => (by cases impossible)⟩
      · exact fun _ valid => ⟨fun impossible => (by cases impossible), fun _ => ⟨_, valid⟩⟩
    refine ((AlVtable.ends_resize_of rfl ends).and_allows (allows_resize invariant good some_ fits)).mono ?_
    rintro done later ⟨⟨refused, granted⟩, moved⟩
    refine ⟨moved.moves ?_ ?_, fun _ able => able⟩
    · intro none_
      cases done with
      | false => exact refused rfl
      | true => cases none_
    · intro addr some_
      cases done with
      | false => cases some_
      | true =>
          cases some_
          exact granted rfl
  remap := by
    rintro _ ⟨⟩ ⟨slab, parent⟩ out ptr old newSize ⟨⟨carved, chunks, frees, invariant⟩, good⟩ held_ some_ fits
    have first : SlabProgram.Invariant ⟨⟨slab, parent⟩, ⟨ptr, old⟩ :: held out, carved⟩ others chunks frees := invariant
    have ends : Ends (moveByHook al ptr old newSize) ⟨slab, parent⟩ fun answer later =>
        (answer = none -> exists carved, Valid others ⟨later, held ((ptr, old) :: out), carved⟩) ∧
        forall addr, answer = some addr ->
          exists carved, Valid others ⟨later, held ((addr, ⟨newSize, old.align⟩) :: out), carved⟩ := by
      apply ends_moveByHook first some_ fits
      · exact fun _ valid => ⟨fun _ => ⟨_, valid⟩, fun _ impossible => (by cases impossible)⟩
      · refine fun addr _ _ valid => ⟨fun impossible => (by cases impossible), ?_⟩
        rintro _ ⟨⟩
        exact ⟨_, valid⟩
    refine ((AlVtable.ends_remap_of rfl ends).and_allows (allows_remap invariant good some_ fits)).mono ?_
    rintro answer later ⟨⟨refused, granted⟩, moved⟩
    exact ⟨moved.moves refused granted, fun _ able => able⟩
  dealloc := by
    rintro ⟨slab, parent⟩ out ptr layout ⟨⟨carved, chunks, frees, invariant⟩, good⟩ _
    have first : SlabProgram.Invariant ⟨⟨slab, parent⟩, ⟨ptr, layout⟩ :: held out, carved⟩ others chunks frees := invariant
    have ends : Ends (deallocate al (some ptr) layout) ⟨slab, parent⟩ fun _ later =>
        Valid others ⟨later, held out, carved⟩ :=
      ends_deallocate first fun _ valid _ => valid
    refine ((AlVtable.ends_dealloc_of ends).and_allows (allows_dealloc invariant good)).mono ?_
    exact fun _ later both => ⟨⟨⟨_, both.1⟩, both.2.1⟩, both.2.2⟩
  write := by
    rintro ⟨slab, parent⟩ out block region content ⟨⟨carved, chunks, frees, invariant⟩, good⟩ inside within
    have there : (⟨block.1, block.2⟩ : SlabBlock) ∈ held out := List.mem_map_of_mem inside
    exact ⟨⟨carved, chunks, frees, invariant.written there (within.trans SlabBlock.region_within) content⟩, good⟩

/-- A slab that has handed out nothing yet. -/
theorem lends_init (good : Parent.ledger.good parent) : Lends parent.out ⟨init Parent.toAl, parent⟩ [] :=
  ⟨⟨[], Reachable.init.valid⟩, good⟩

/-- The large ones of the blocks that are out. -/
def largeOut (out : List (Nat × Layout)) : List (Nat × Layout) :=
  out.filter fun block => classOf block.2 == classCount

theorem larges_held : (larges (held out)).map SlabBlock.entry = largeOut out := by
  rw [larges, held, List.filter_map, List.map_map]
  exact List.map_id _

/-- All chunks together fit into memory. -/
theorem chunkBytes_fits (books : Books blocks carved chunks frees) : chunks.length * chunkBytes < sizeRange := by
  have apart := List.pairwise_map.mp (List.pairwise_append.mp books.apart).1
  have below : forall chunk, chunk ∈ chunks -> (Parent.region (SlabChunk.entry chunk)).stop ≤ sizeRange - 1 :=
    fun chunk there => Nat.le_sub_one_of_lt (books.live chunk there).fits
  have total := Region.total_le (fun chunk => Parent.region (SlabChunk.entry chunk)) apart below
  have sum : (chunks.map fun chunk => (Parent.region (SlabChunk.entry chunk)).size).sum = chunks.length * chunkBytes := by
    change (chunks.map fun _ => chunkBytes).sum = _
    rw [List.map_const', List.sum_replicate_nat]
  have positive : 0 < sizeRange := by decide
  omega

/-- A slab over an honest parent meets the contract of an allocator's hooks, from the
making of it on, and whatever else the parent has out.  Its statistics count the
blocks that are out, the small and the large ones, and the chunks: those and the
large blocks are all it has of its parent.  The end gives every chunk back. -/
theorem slabs_meet_contract (others : List (Nat × Layout)) :
    (forall parent : Parent, Parent.ledger.good parent -> Lends parent.out ⟨init Parent.toAl, parent⟩ []) ∧
      (Booked.ledger (fun _ => True) (Lends others)).Meets (toAl Parent).booked ∧
      forall world out, Lends others world out ->
        Ends (stats world.ctx) world (fun stats later => later = world ∧
          stats.smallBlocks + stats.largeBlocks = out.length ∧ stats.largeBlocks = (largeOut out).length ∧
          exists starts : List Nat, starts.length = stats.chunks ∧ stats.chunkBytes = starts.length * chunkBytes ∧
            world.below.out.Perm (starts.map (fun start => (start, chunkLayout)) ++ largeOut out ++ others)) ∧
        Ends deinit world fun _ later => later.ctx = inert ∧ later.below.out.Perm (largeOut out ++ others) := by
  refine ⟨fun parent good => lends_init good, (keeps others).serves.meets, ?_⟩
  rintro ⟨slab, parent⟩ out ⟨⟨carved, chunks, frees, invariant⟩, good⟩
  have parent_ : slab.parent = some Parent.toAl := invariant.parent
  have count : slab.chunkCount = chunks.length := invariant.count
  have smalls : slab.smallBlocks = ((held out).filter fun block => !block.large).length := invariant.smallCount
  have large : slab.largeBlocks = (larges (held out)).length := invariant.largeCount
  have taken : parent.out.Perm (chunks.map SlabChunk.entry ++ (larges (held out)).map SlabBlock.entry ++ others) :=
    invariant.out
  rw [larges_held] at taken
  constructor
  · have whole : wrapMul slab.chunkCount chunkBytes = chunks.length * chunkBytes := by
      rw [count]
      exact wrapMul_eq (chunkBytes_fits invariant.books)
    have length : (held out).length = out.length := List.length_map _
    have split_ := List.length_eq_length_filter_add (l := held out) SlabBlock.large
    have largeLength : (larges (held out)).length = (largeOut out).length := by
      rw [← larges_held, List.length_map]
    simp only [stats, assertSlab, parent_, ends_bind, ends_demand_some, ends_pure, whole]
    refine ⟨trivial, ?_, large.trans largeLength, chunks.map SlabChunk.start, ?_, ?_, ?_⟩
    · rw [smalls, large, Nat.add_comm, larges, ← split_, length]
    · rw [List.length_map, count]
    · rw [List.length_map]
    · rw [List.map_map]
      exact taken
  · refine SlabProgram.ends_deinit invariant fun later gone => ⟨rfl, ?_⟩
    rw [larges_held] at gone
    exact gone

end Slab
end TerseDsa
