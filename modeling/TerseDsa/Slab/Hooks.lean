import TerseDsa.Slab.Upkeep

namespace TerseDsa

open Foundation Run AlVtable

/-!
# The hooks of the slab

Whatever the parent answers, a hook that is called as it should be ends, and the
books fit what it leaves.
-/

namespace SlabProgram

open Slab

variable {program : SlabProgram} {blocks rest : List SlabBlock} {carved : List (Nat × Nat)}
  {chunks : List SlabChunk} {frees : Nat -> List Nat} {others : List (Nat × Layout)}
  {block : SlabBlock} {chunk : SlabChunk} {layout : Layout} {slab : Slab Parent} {parent later : Parent}
  {newSize : Nat}

/-! ## Handing out -/

/-- A class can be carved exactly if its newest chunk has room. -/
theorem canCarve_iff (invariant : Invariant ⟨⟨slab, parent⟩, blocks, carved⟩ others chunks frees)
    {idx : Nat} (inRange : idx < classCount) : canCarve (slab.classes idx) (classSize idx) = true <->
      exists chunk, chunks.find? (fun chunk => chunk.cls == idx) = some chunk ∧
        (chunk.carved + 1) * classSize chunk.cls ≤ chunkRoom := by
  have carves := invariant.carves idx inRange
  cases newest : chunks.find? fun chunk => chunk.cls == idx with
  | none =>
      rw [newest] at carves
      have carve : (slab.classes idx).carve = none := carves
      simp [canCarve, carve]
  | some chunk =>
      rw [newest] at carves
      have live := invariant.books.live chunk (List.mem_of_find?_eq_some newest)
      have cls : chunk.cls = idx := (newest_split newest).1
      have carve : (slab.classes idx).carve = some (chunk.start + chunk.carved * classSize chunk.cls) :=
        carves.1
      have carveEnd : (slab.classes idx).carveEnd = some (chunk.start + chunkRoom) := carves.2
      have fits := live.fits
      have room := live.room
      have bound : chunkRoom ≤ chunkBytes := by decide
      have difference : wrapSub (chunk.start + chunkRoom) (chunk.start + chunk.carved * classSize chunk.cls) =
          chunk.start + chunkRoom - (chunk.start + chunk.carved * classSize chunk.cls) :=
        wrapSub_eq (by omega) (by omega)
      simp only [canCarve, carve, carveEnd, difference, decide_eq_true_eq, Option.some.injEq]
      rw [← cls]
      constructor
      · intro fits
        refine ⟨chunk, rfl, ?_⟩
        rw [Nat.succ_mul]
        omega
      · rintro ⟨_, rfl, room⟩
        rw [Nat.succ_mul] at room
        omega

/-- A block is carved from the newest chunk of the class. -/
theorem ends_takeCarve (invariant : Invariant ⟨⟨slab, parent⟩, blocks, carved⟩ others chunks frees)
    (asked : layout.Asked) (some_ : 0 < layout.size) (small : classOf layout < classCount)
    (found : chunks.find? (fun chunk => chunk.cls == classOf layout) = some chunk)
    (room : (chunk.carved + 1) * classSize chunk.cls ≤ chunkRoom)
    {post : Option Addr × Slab Parent -> Parent -> Prop}
    (granted : forall addr slab, Valid others ⟨⟨{ slab with smallBlocks := slab.smallBlocks + 1 }, parent⟩,
      ⟨addr, layout⟩ :: blocks, (addr, classOf layout) :: carved⟩ -> post (some addr, slab) parent) :
    Ends (takeCarve slab (classOf layout) (classSize (classOf layout))) parent post := by
  have carves := invariant.carves _ small
  rw [found] at carves
  have tip : (slab.classes (classOf layout)).carve = some chunk.tip := carves.1
  simp only [takeCarve, tip, ends_bind, ends_demand_some, ends_pure]
  exact granted _ _ (invariant.carveNext asked some_ small found room)

/-- A chunk lies where a chunk should. -/
theorem live_of_honest {out : List (Nat × Layout)} {start idx : Nat} (inRange : idx < classCount)
    (honest : Parent.Honest out start chunkLayout) : SlabChunk.Live ⟨start, idx, 0⟩ :=
  ⟨inRange, by rw [Nat.zero_mul]; exact Nat.zero_le _, honest.real, honest.room, honest.aligned⟩

/-- A small block is handed out, or the parent refused a chunk. -/
theorem ends_takeSmall (invariant : Invariant ⟨⟨slab, parent⟩, blocks, carved⟩ others chunks frees)
    (asked : layout.Asked) (some_ : 0 < layout.size) (small : classOf layout < classCount)
    {post : Option Addr × Slab Parent -> Parent -> Prop}
    (refused : forall later, Valid others ⟨⟨slab, later⟩, blocks, carved⟩ -> post (none, slab) later)
    (granted : forall addr taken later,
      Valid others ⟨⟨{ taken with smallBlocks := taken.smallBlocks + 1 }, later⟩,
        ⟨addr, layout⟩ :: blocks, noted slab addr layout carved⟩ -> post (some addr, taken) later) :
    Ends (takeSmall Parent.toAl slab (classOf layout)) parent post := by
  have free := invariant.free _ small
  have head : (slab.classes (classOf layout)).freeHead = (frees (classOf layout)).head? := free.head_eq
  unfold takeSmall
  cases split_ : frees (classOf layout) with
  | cons node tail =>
      have noted_ : noted slab node layout carved = carved := by
        rw [noted, if_neg]
        rw [head, split_, List.head?_cons]
        exact fun both => nomatch both.2
      have at_ : (slab.classes (classOf layout)).freeHead = some node := by rw [head, split_, List.head?_cons]
      simp only [at_, readLink, ends_bind, Run.ends_get, ends_pure]
      apply granted
      rw [noted_]
      exact ⟨_, _, invariant.takeFree asked some_ small split_⟩
  | nil =>
      have none_ : (slab.classes (classOf layout)).freeHead = none := by rw [head, split_, List.head?_nil]
      have noted_ : forall addr, noted slab addr layout carved = (addr, classOf layout) :: carved :=
        fun addr => if_pos ⟨small, none_⟩
      simp only [none_, carve]
      by_cases room : canCarve (slab.classes (classOf layout)) (classSize (classOf layout)) = true
      · rw [if_pos room]
        rcases (canCarve_iff invariant small).mp room with ⟨chunk, found, room⟩
        apply ends_takeCarve invariant asked some_ small found room
        intro addr taken valid
        rw [← noted_] at valid
        exact granted addr taken parent valid
      · rw [if_neg room]
        simp only [addChunk, ends_bind]
        apply Parent.ends_allocate ⟨by decide, by decide, by decide⟩
        · intro later same
          simp only [ends_pure, Bool.false_eq_true, if_false]
          exact refused later ⟨chunks, frees, invariant.refused same⟩
        · intro _ start middle honest out keeps
          simp only [writeLink, ends_bind, ends_modify, ends_pure, if_true]
          have live := live_of_honest small honest
          have apart : forall entry, entry ∈ taken chunks blocks ->
              (Parent.region (start, chunkLayout)).Apart (Parent.region entry) :=
            fun entry inside => honest.apart entry (invariant.taken_mem inside)
          have linked : Invariant ⟨⟨_, { middle with
                bytes := middle.bytes.setLink (start + chunkRoom) slab.chunks }⟩, blocks, carved⟩ others
              (⟨start, classOf layout, 0⟩ :: chunks) frees :=
            invariant.linkChunk live rfl apart out keeps rfl
          have newest : (⟨start, classOf layout, 0⟩ :: chunks).find?
              (fun chunk => chunk.cls == classOf layout) = some ⟨start, classOf layout, 0⟩ := by
            rw [List.find?_cons, beq_self_eq_true]
          have fits : (0 + 1) * classSize (classOf layout) ≤ chunkRoom := by
            rw [Nat.zero_add, Nat.one_mul]
            exact (classSize_facts _ small).2.1
          apply ends_takeCarve linked asked some_ small newest fits
          · intro addr taken valid
            rw [← noted_] at valid
            exact granted addr taken _ valid

/-- The hooks of the slab. -/
abbrev al : AlVtable (World (Slab Parent) Parent) := Slab.toAl Parent

/-- A block is handed out, or nothing happens that counts. -/
theorem ends_allocate (invariant : Invariant ⟨⟨slab, parent⟩, blocks, carved⟩ others chunks frees)
    (asked : layout.Asked) {post : Option Addr -> World (Slab Parent) Parent -> Prop}
    (refused : forall world, world.ctx.classes = slab.classes ->
      Valid others ⟨world, blocks, carved⟩ -> post none world)
    (granted : 0 < layout.size -> forall addr world,
      Valid others ⟨world, ⟨addr, layout⟩ :: blocks, noted slab addr layout carved⟩ ->
      post (some addr) world) :
    Ends (allocate al layout) ⟨slab, parent⟩ post := by
  apply AlVtable.ends_allocate asked
  · exact fun _ => refused _ rfl ⟨chunks, frees, invariant⟩
  · intro some_
    have parent_eq : slab.parent = some Parent.toAl := invariant.parent
    have aligned : forall {addr world carved},
        Valid others ⟨world, ⟨addr, layout⟩ :: blocks, carved⟩ -> layout.align ∣ addr := by
      rintro addr world carved ⟨_, _, invariant⟩
      exact invariant.books.aligned _ List.mem_cons_self
    change Ends (Slab.alloc layout) _ _
    simp only [Slab.alloc, assertSlab, ends_bind, World.ends_self, parent_eq, ends_demand_some,
      ends_require, some_, true_and]
    by_cases large : classOf layout = classCount
    · rw [if_pos large]
      simp only [ends_bind, World.ends_under]
      have large_ : SlabBlock.large ⟨0, layout⟩ = true := SlabBlock.large_iff.mpr large
      apply Parent.ends_allocate asked
      · intro later same
        simp only [ends_pure]
        exact ⟨fun _ impossible => (by cases impossible),
          refused _ rfl ⟨chunks, frees, invariant.refused same⟩⟩
      · intro _ addr later honest out keeps
        have noted_ : noted slab addr layout carved = carved := if_neg fun both => Nat.ne_of_lt both.1 large
        have apart : forall entry, entry ∈ taken chunks blocks ->
            Region.Apart ⟨addr, layout.size⟩ (Parent.region entry) :=
          fun entry inside => honest.apart entry (invariant.taken_mem inside)
        have held : Valid others ⟨⟨{ slab with largeBlocks := slab.largeBlocks + 1 }, later⟩,
            ⟨addr, layout⟩ :: blocks, carved⟩ :=
          ⟨chunks, frees, invariant.holdLarge asked some_ honest.aligned large_ apart out keeps
            (invariant.books.clear_of_apart apart)⟩
        simp only [ends_bind, World.ends_setSelf, ends_pure]
        refine ⟨fun _ same => Option.some.inj same ▸ honest.aligned, granted some_ addr _ ?_⟩
        rw [noted_, ← parent_eq]
        exact held
    · have small : classOf layout < classCount := Nat.lt_of_le_of_ne classOf_le large
      rw [if_neg large]
      simp only [ends_bind, World.ends_under]
      apply ends_takeSmall invariant asked some_ small
      · intro later valid
        simp only [ends_bind, World.ends_setSelf, ends_pure]
        exact ⟨fun _ impossible => (by cases impossible), refused _ rfl valid⟩
      · intro addr taken later valid
        simp only [ends_bind, World.ends_setSelf, ends_pure]
        exact ⟨fun _ same => Option.some.inj same ▸ aligned valid, granted some_ addr _ valid⟩

/-! ## Giving back -/

/-- The parent has a large block out as the slab knows it. -/
theorem large_out (invariant : Invariant ⟨⟨slab, parent⟩, block :: rest, carved⟩ others chunks frees)
    (large : block.large = true) : block.entry ∈ parent.out := by
  apply invariant.taken_mem
  exact List.mem_append_right _ (List.mem_map_of_mem (mem_larges.mpr ⟨List.mem_cons_self, large⟩))

/-- A block that is held is given back: a small one is the next of its class. -/
theorem ends_deallocate (invariant : Invariant ⟨⟨slab, parent⟩, block :: rest, carved⟩ others chunks frees)
    {post : Unit -> World (Slab Parent) Parent -> Prop}
    (done : forall world, Valid others ⟨world, rest, carved⟩ ->
      (classOf block.layout < classCount ->
        (world.ctx.classes (classOf block.layout)).freeHead = some block.ptr) -> post () world) :
    Ends (deallocate al (some block.ptr) block.layout) ⟨slab, parent⟩ post := by
  have parent_eq : slab.parent = some Parent.toAl := invariant.parent
  have held : block ∈ block :: rest := List.mem_cons_self
  rcases invariant.books.asked block held with ⟨asked, some_⟩
  simp only [deallocate, ends_bind, ends_require, some_, or_true, asked.isAlign, true_and]
  change Ends (Slab.dealloc block.ptr block.layout) _ _
  simp only [Slab.dealloc, assertSlab, ends_bind, World.ends_self, parent_eq, ends_demand_some]
  by_cases large : block.large = true
  · have count : slab.largeBlocks = (larges (block :: rest)).length := invariant.largeCount
    rw [larges_cons_large large, List.length_cons] at count
    have positive : 0 < slab.largeBlocks := by omega
    have clear := invariant.books.clear_of_within held (by
      rw [SlabBlock.room_of_large large]
      exact Region.Within.refl _)
    rw [if_pos (SlabBlock.large_iff.mp large)]
    simp only [ends_bind, ends_require, positive, true_and, World.ends_setSelf, World.ends_under]
    apply Parent.ends_deallocate asked.isAlign some_ (large_out invariant large)
    intro later out keeps
    have dropped := invariant.dropLarge large out keeps clear
    have not_ : ¬ classOf block.layout < classCount := by
      rw [SlabBlock.large_iff.mp large]
      exact Nat.lt_irrefl _
    rw [← parent_eq]
    exact done _ ⟨_, _, dropped⟩ fun small => absurd small not_
  · have small := SlabBlock.small_iff.mp (Bool.eq_false_iff.mpr large)
    have count : slab.smallBlocks = ((block :: rest).filter fun block => !block.large).length :=
      invariant.smallCount
    rw [smalls_cons_small small] at count
    have positive : 0 < slab.smallBlocks := by omega
    have other : some block.ptr ≠ (slab.classes (classOf block.layout)).freeHead := by
      intro same
      have head : (slab.classes (classOf block.layout)).freeHead =
        (frees (classOf block.layout)).head? := (invariant.free _ small).head_eq
      rw [head] at same
      exact invariant.books.free_ne small (List.mem_of_mem_head? same.symm) held rfl
    rw [if_neg (Nat.ne_of_lt small)]
    simp only [ends_bind, ends_require, positive, other, ne_eq, not_false_eq_true, true_and,
      World.ends_under, writeLink, ends_modify, World.ends_setSelf]
    have dropped : Invariant ⟨⟨_, { parent with
          bytes := parent.bytes.setLink block.ptr (slab.classes (classOf block.layout)).freeHead }⟩,
        rest, carved⟩ others chunks _ := invariant.dropSmall small rfl rfl
    refine done _ ⟨_, _, dropped⟩ ?_
    intro _
    change (Function.update slab.classes _ _ _).freeHead = _
    rw [Function.update_self]

/-! ## Staying and moving -/

theorem staysLarge_iff {old : Layout} : staysLarge old newSize = true <->
    classOf old = classCount ∧ classOf ⟨newSize, old.align⟩ = classCount := by
  rw [staysLarge, Bool.and_eq_true, beq_iff_eq, beq_iff_eq]

/-- What a large block has as its new layout. -/
theorem Invariant.exchangeLarge
    (invariant : Invariant ⟨⟨slab, parent⟩, block :: rest, carved⟩ others chunks frees)
    {ptr : Nat} (large : block.large = true) (asked : layout.Asked) (some_ : 0 < layout.size)
    (also : classOf layout = classCount)
    (honest : Parent.Honest (parent.out.erase block.entry) ptr layout)
    (out : later.out = (ptr, layout) :: parent.out.erase block.entry) {middle : Bytes}
    (first : Bytes.Keeps parent.bytes middle block.region)
    (second : Bytes.Keeps middle later.bytes ⟨ptr, layout.size⟩) :
    Invariant ⟨⟨slab, later⟩, ⟨ptr, layout⟩ :: rest, carved⟩ others chunks frees := by
  have held : block ∈ block :: rest := List.mem_cons_self
  have count : slab.largeBlocks = (larges (block :: rest)).length := invariant.largeCount
  rw [larges_cons_large large, List.length_cons] at count
  have within : block.region.Within block.room := by
    rw [SlabBlock.room_of_large large]
    exact Region.Within.refl _
  -- the block goes first, then the new one comes
  let parent' : Parent := { parent with out := parent.out.erase block.entry, bytes := middle }
  have dropped : Invariant ⟨⟨_, parent'⟩, rest, carved⟩ others chunks frees :=
    invariant.dropLarge large rfl first (invariant.books.clear_of_within held within)
  have apart : forall entry, entry ∈ taken chunks rest ->
      Region.Apart ⟨ptr, layout.size⟩ (Parent.region entry) :=
    fun entry inside => honest.apart entry (dropped.taken_mem inside)
  have large' : SlabBlock.large ⟨ptr, layout⟩ = true := SlabBlock.large_iff.mpr also
  have taken := dropped.holdLarge asked some_ honest.aligned large' apart out second
    (dropped.books.clear_of_apart apart)
  have same : slab.largeBlocks - 1 + 1 = slab.largeBlocks := by omega
  rw [same] at taken
  exact taken

/-- A held block gets its new size where it is, or nothing happens that counts. -/
theorem ends_resizeInPlace
    (invariant : Invariant ⟨⟨slab, parent⟩, block :: rest, carved⟩ others chunks frees)
    (wanted : 0 < newSize) (fits : newSize < sizeRange)
    {post : Bool -> World (Slab Parent) Parent -> Prop}
    (refused : forall later, Valid others ⟨⟨slab, later⟩, block :: rest, carved⟩ ->
      classOf block.layout ≠ classOf ⟨newSize, block.layout.align⟩ ∨ block.large = true ->
      post false ⟨slab, later⟩)
    (granted : forall later,
      Valid others ⟨⟨slab, later⟩, ⟨block.ptr, ⟨newSize, block.layout.align⟩⟩ :: rest, carved⟩ ->
      post true ⟨slab, later⟩) :
    Ends (resizeInPlace al block.ptr block.layout newSize) ⟨slab, parent⟩ post := by
  have parent_eq : slab.parent = some Parent.toAl := invariant.parent
  have held : block ∈ block :: rest := List.mem_cons_self
  rcases invariant.books.asked block held with ⟨asked, some_⟩
  have asked' : Layout.Asked ⟨newSize, block.layout.align⟩ := ⟨asked.isAlign, fits, asked.align⟩
  simp only [resizeInPlace, ends_bind, ends_require, some_, wanted, asked.isAlign, true_and,
    and_self, Slab.toAl, Slab.resize, assertSlab, World.ends_self, parent_eq, ends_demand_some]
  by_cases stays : staysLarge block.layout newSize = true
  · rcases staysLarge_iff.mp stays with ⟨before, also⟩
    have large : block.large = true := SlabBlock.large_iff.mpr before
    rw [if_pos stays, World.ends_under]
    apply Parent.ends_resizeInPlace asked.isAlign some_ wanted (large_out invariant large)
    · intro later same
      exact refused later ⟨_, _, invariant.refused same⟩ (Or.inr large)
    · intro later honest out keeps
      have within : Bytes.Keeps parent.bytes later.bytes ⟨block.ptr, newSize⟩ := by
        intro addr outside
        apply keeps
        unfold Region.Covers Region.stop at outside ⊢
        dsimp only at outside ⊢
        omega
      exact granted later ⟨chunks, frees,
        invariant.exchangeLarge large asked' wanted also honest out (fun _ _ => rfl) within⟩
  · rw [if_neg stays, ends_pure]
    by_cases same : classOf block.layout = classOf ⟨newSize, block.layout.align⟩
    · have small : classOf block.layout < classCount := by
        apply Nat.lt_of_le_of_ne classOf_le
        intro large
        exact stays (staysLarge_iff.mpr ⟨large, same ▸ large⟩)
      have answer : (classOf block.layout == classOf ⟨newSize, block.layout.align⟩) = true :=
        beq_iff_eq.mpr same
      rw [answer]
      exact granted parent ⟨_, _, invariant.exchangeSmall asked' wanted small same.symm⟩
    · have answer : (classOf block.layout == classOf ⟨newSize, block.layout.align⟩) = false :=
        beq_eq_false_iff_ne.mpr same
      rw [answer]
      exact refused parent ⟨_, _, invariant⟩ (Or.inl same)

/-- A held block moves, or nothing happens that counts. -/
theorem ends_moveByHook
    (invariant : Invariant ⟨⟨slab, parent⟩, block :: rest, carved⟩ others chunks frees)
    (wanted : 0 < newSize) (fits : newSize < sizeRange)
    {post : Option Addr -> World (Slab Parent) Parent -> Prop}
    (refused : forall later, Valid others ⟨⟨slab, later⟩, block :: rest, carved⟩ ->
      post none ⟨slab, later⟩)
    (granted : forall addr later, classOf ⟨newSize, block.layout.align⟩ = classCount ->
      Valid others ⟨⟨slab, later⟩, ⟨addr, ⟨newSize, block.layout.align⟩⟩ :: rest, carved⟩ ->
      post (some addr) ⟨slab, later⟩) :
    Ends (moveByHook al block.ptr block.layout newSize) ⟨slab, parent⟩ post := by
  have parent_eq : slab.parent = some Parent.toAl := invariant.parent
  have held : block ∈ block :: rest := List.mem_cons_self
  rcases invariant.books.asked block held with ⟨asked, some_⟩
  have asked' : Layout.Asked ⟨newSize, block.layout.align⟩ := ⟨asked.isAlign, fits, asked.align⟩
  simp only [moveByHook, ends_bind, ends_require, some_, wanted, asked.isAlign, true_and,
    and_self, Slab.toAl, Slab.remap, assertSlab, World.ends_self, parent_eq, ends_demand_some]
  by_cases stays : staysLarge block.layout newSize = true
  · rcases staysLarge_iff.mp stays with ⟨before, also⟩
    have large : block.large = true := SlabBlock.large_iff.mpr before
    rw [if_pos stays, World.ends_under]
    apply Parent.ends_moveByHook asked.isAlign some_ wanted (large_out invariant large)
    · intro later same
      simp only [ends_pure]
      exact ⟨rfl, refused later ⟨_, _, invariant.refused same⟩⟩
    · intro addr later middle honest out first second
      simp only [ends_pure]
      exact ⟨(AlVtable.meets_some asked'.isAlign).mpr honest.aligned, granted addr later also
        ⟨chunks, frees, invariant.exchangeLarge large asked' wanted also honest out first second⟩⟩
  · rw [if_neg stays]
    simp only [ends_pure]
    exact ⟨rfl, refused parent ⟨_, _, invariant⟩⟩

/-! ## Writing -/

theorem Invariant.written (invariant : Invariant ⟨⟨slab, parent⟩, blocks, carved⟩ others chunks frees)
    (held : block ∈ blocks) {region : Region} (within : region.Within block.room)
    (content : Nat -> Byte) :
    Invariant ⟨⟨slab, { parent with bytes := parent.bytes.overwrite region content }⟩, blocks, carved⟩
      others chunks frees :=
  invariant.rewritten rfl (Bytes.keeps_overwrite _ _ _) (invariant.books.clear_of_within held within)

/-! ## The wrappers that do more -/

/-- A block of zeros is handed out, or nothing happens that counts. -/
theorem ends_allocateZeroed (invariant : Invariant ⟨⟨slab, parent⟩, blocks, carved⟩ others chunks frees)
    (asked : layout.Asked) {post : Option Addr -> World (Slab Parent) Parent -> Prop}
    (refused : forall world, Valid others ⟨world, blocks, carved⟩ -> post none world)
    (granted : forall addr world,
      Valid others ⟨world, ⟨addr, layout⟩ :: blocks, noted slab addr layout carved⟩ ->
      post (some addr) world) :
    Ends (allocateZeroed al layout) ⟨slab, parent⟩ post := by
  simp only [allocateZeroed, ends_bind, ends_require, asked.isAlign, true_and]
  by_cases empty : layout.size = 0
  · simp only [if_pos empty, ends_pure]
    exact refused _ ⟨chunks, frees, invariant⟩
  · simp only [if_neg empty, Slab.toAl, ends_bind]
    apply ends_allocate invariant asked
    · intro world _ valid
      simp only [ends_pure]
      exact refused world valid
    · rintro _ addr ⟨slab, parent⟩ ⟨chunks, frees, held⟩
      simp only [setBytes, ends_bind, ends_modify, ends_pure]
      apply granted
      exact ⟨chunks, frees, held.written List.mem_cons_self SlabBlock.region_within _⟩

/-- A held block gets a new size, here or elsewhere, or nothing happens that counts. -/
theorem ends_reallocate
    (invariant : Invariant ⟨⟨slab, parent⟩, block :: rest, carved⟩ others chunks frees)
    (fits : newSize < sizeRange) {post : Option Addr -> World (Slab Parent) Parent -> Prop}
    (freed : newSize = 0 -> forall world, Valid others ⟨world, rest, carved⟩ -> post none world)
    (refused : newSize ≠ 0 -> forall world, Valid others ⟨world, block :: rest, carved⟩ ->
      post none world)
    (stayed : forall world,
      Valid others ⟨world, ⟨block.ptr, ⟨newSize, block.layout.align⟩⟩ :: rest, carved⟩ ->
      post (some block.ptr) world)
    (moved : forall addr world, Valid others ⟨world, ⟨addr, ⟨newSize, block.layout.align⟩⟩ :: rest,
        noted slab addr ⟨newSize, block.layout.align⟩ carved⟩ ->
      addr ≠ block.ptr -> post (some addr) world) :
    Ends (reallocate al (some block.ptr) block.layout newSize) ⟨slab, parent⟩ post := by
  have held : block ∈ block :: rest := List.mem_cons_self
  rcases invariant.books.asked block held with ⟨asked, some_⟩
  have present : (some block.ptr = none <-> block.layout.size = 0) :=
    ⟨(nomatch ·), fun empty => absurd empty (Nat.ne_of_gt some_)⟩
  simp only [reallocate, ends_bind, ends_require, present, asked.isAlign, true_and]
  by_cases wanted : newSize = 0
  · rw [if_pos wanted]
    simp only [ends_bind]
    apply ends_deallocate invariant
    intro world valid _
    simp only [ends_pure]
    exact freed wanted world valid
  · have positive : 0 < newSize := Nat.pos_of_ne_zero wanted
    have asked' : Layout.Asked ⟨newSize, block.layout.align⟩ := ⟨asked.isAlign, fits, asked.align⟩
    rw [if_neg wanted]
    simp only [ends_bind]
    apply ends_resizeInPlace invariant positive fits
    · rintro later ⟨chunks, frees, invariant⟩ _
      simp only [Bool.false_eq_true, if_false, ends_bind]
      apply ends_moveByHook invariant positive fits
      · rintro later ⟨chunks, frees, invariant⟩
        simp only [ends_bind]
        apply ends_allocate invariant asked'
        · intro world _ valid
          simp only [ends_pure]
          exact refused wanted world valid
        · rintro _ fresh ⟨slab', parent'⟩ ⟨chunks, frees, both⟩
          simp only [copyBytes, ends_bind, ends_modify]
          have less : (if block.layout.size < newSize then block.layout.size else newSize) ≤ newSize := by
            split <;> omega
          have within : Region.Within ⟨fresh, _⟩ (SlabBlock.room ⟨fresh, ⟨newSize, block.layout.align⟩⟩) :=
            (Region.within_of_le less).trans SlabBlock.region_within
          have copied := both.written List.mem_cons_self within fun offset => parent'.bytes (block.ptr + offset)
          have swapped := copied.perm (List.Perm.swap block _ rest)
          have fresh_ : fresh ≠ block.ptr := by
            intro same
            have once := both.books.distinct
            rw [List.map_cons, List.nodup_cons] at once
            exact once.1 (List.mem_map.mpr ⟨block, List.mem_cons_self, same.symm⟩)
          apply ends_deallocate swapped
          intro world valid _
          simp only [ends_pure]
          exact moved fresh world valid fresh_
      · intro addr later large valid
        simp only [ends_pure]
        have noted_ : noted slab addr ⟨newSize, block.layout.align⟩ carved = carved :=
          if_neg fun both => Nat.ne_of_lt both.1 large
        by_cases same : addr = block.ptr
        · rw [same] at valid ⊢
          exact stayed _ valid
        · apply moved addr _ _ same
          rw [noted_]
          exact valid
    · intro later valid
      simp only [if_true, ends_pure]
      exact stayed _ valid

end SlabProgram
end TerseDsa
