import TerseDsa.Arena.Steps
import TerseDsa.Alloc.Booked

namespace TerseDsa

open Foundation Run

/-!
# The arena as an allocator

Over whatever meets the contract of its hooks, an arena meets it too: what it
hands out lies in the one block that it has from there.  So do a reset and a
rewind leave it, each with the blocks that it does not take back.
-/

namespace Arena

variable {P : Type} {below : Ledger P} {data : Nat} {home block : Nat × Layout} {world : World (Arena P) P}
  {out others : List (Nat × Layout)} {layout old : Layout} {ptr newSize : Nat}

/-- A block lies before the cursor, on its alignment. -/
structure Lies (data offset : Nat) (block : Nat × Layout) : Prop where
  some_ : 0 < block.2.size
  above : data ≤ block.1
  inside : block.1 + block.2.size ≤ data + offset
  aligned : block.2.align ∣ block.1

/-- The blocks that are out of an arena, whose memory lies in one block of what it was built on. -/
structure Lends (below : Ledger P) (data : Nat) (home : Nat × Layout) (world : World (Arena P) P)
    (out : List (Nat × Layout)) : Prop where
  live : Live world.ctx data
  good : below.good world.below
  owned : home ∈ below.live world.below
  within : Region.Within ⟨data, world.ctx.cap⟩ (Parent.region home)
  lies : forall block, block ∈ out -> Lies data world.ctx.offset block
  apart : out.Pairwise fun left right => (Parent.region left).Apart (Parent.region right)

namespace Lends

theorem perm (lends : Lends below data home world out) (perm : out.Perm others) :
    Lends below data home world others :=
  ⟨lends.live, lends.good, lends.owned, lends.within, fun block inside => lends.lies block (perm.mem_iff.mpr inside),
    perm.pairwise lends.apart fun apart => Region.Apart.symm apart⟩

/-- Some of the blocks are out no more, and the cursor may be lower, but not below what remains. -/
theorem fewer (lends : Lends below data home world out) {offset floor : Nat} (sublist : others.Sublist out)
    (low : floor ≤ offset) (fits : offset ≤ world.ctx.cap)
    (kept : forall block, block ∈ others -> block.1 + block.2.size ≤ data + offset) :
    Lends below data home { world with ctx := { world.ctx with offset := offset, floor := floor } } others where
  live := lends.live.moved low fits
  good := lends.good
  owned := lends.owned
  within := lends.within
  lies block inside :=
    have before := lends.lies block (sublist.subset inside)
    ⟨before.some_, before.above, kept block inside, before.aligned⟩
  apart := lends.apart.sublist sublist

theorem tail (lends : Lends below data home world (block :: out)) : Lends below data home world out :=
  lends.fewer (List.sublist_cons_self _ _) lends.live.floor lends.live.offset
    fun other inside => (lends.lies other (List.mem_cons_of_mem _ inside)).inside

/-- Another block is out, behind all others, or where there is none. -/
theorem cons (lends : Lends below data home world out) (layout : Layout) {offset : Nat} (some_ : 0 < layout.size)
    (above : data ≤ ptr) (floor : world.ctx.floor ≤ offset) (fits : offset ≤ world.ctx.cap)
    (inside : ptr + layout.size ≤ data + offset) (aligned : layout.align ∣ ptr)
    (kept : forall block, block ∈ out -> block.1 + block.2.size ≤ data + offset)
    (apart : forall block, block ∈ out -> Region.Apart ⟨ptr, layout.size⟩ (Parent.region block)) :
    Lends below data home { world with ctx := { world.ctx with offset := offset } } ((ptr, layout) :: out) :=
  have rest := lends.fewer (List.Sublist.refl _) floor fits kept
  ⟨rest.live, rest.good, rest.owned, rest.within,
    List.forall_mem_cons.mpr ⟨⟨some_, above, inside, aligned⟩, rest.lies⟩, List.pairwise_cons.mpr ⟨apart, rest.apart⟩⟩

/-- The room for a block that lies before the cursor. -/
theorem fresh (lends : Lends below data home world out) {size align : Nat} (above : data ≤ ptr)
    (room : ptr + size ≤ data + world.ctx.cap) (aligned : align ∣ ptr)
    (apart : forall block, block ∈ out -> Region.Apart ⟨ptr, size⟩ (Parent.region block)) :
    Fresh (Booked.those out) ptr ⟨size, align⟩ := by
  have base := lends.live.base
  have end_ := lends.live.room
  refine ⟨Nat.lt_of_lt_of_le base above, ?_, aligned, apart⟩
  change ptr + size < sizeRange
  omega

end Lends

variable [HasBytes P] {parent : AlVtable P}

/-- The hooks of an arena keep its blocks where they should be, and never touch a byte. -/
theorem keeps (meets : below.Meets parent) (data : Nat) (home : Nat × Layout) :
    Booked.Keeps (fun _ => True) (fun _ => True) (Lends below data home) (toAl P) where
  perm := Lends.perm
  alloc := by
    intro world out layout lends _ asked _ some_
    refine AlVtable.ends_alloc_of some_ ?_
    apply ends_allocate lends.live asked
    · exact fun empty => absurd empty (Nat.ne_of_gt some_)
    · exact fun _ _ => ⟨Intact.refl _ _, lends⟩
    · intro _ start same aligned fits
      have behind : world.ctx.offset ≤ start := same ▸ Nat.le_add_right _ _
      have floor := lends.live.floor
      have apart : forall block, block ∈ out -> Region.Apart ⟨data + start, layout.size⟩ (Parent.region block) := by
        intro block inside
        have before := (lends.lies block inside).inside
        unfold Region.Apart Region.stop Parent.region
        dsimp only
        omega
      have kept : forall block, block ∈ out -> block.1 + block.2.size ≤ data + (start + layout.size) := by
        intro block inside
        have before := (lends.lies block inside).inside
        omega
      refine ⟨Intact.refl _ _, lends.cons layout some_ (Nat.le_add_right _ _) (by omega) fits
        (Nat.le_of_eq (Nat.add_assoc _ _ _)) aligned kept apart, ?_⟩
      exact lends.fresh (Nat.le_add_right _ _) (by omega) aligned apart
  allocZeroed := fun _ impossible => by cases impossible
  resize := by
    rintro _ ⟨⟩ world out ptr old newSize lends held some_ fits
    have mine := lends.lies _ List.mem_cons_self
    have apart := (List.pairwise_cons.mp lends.apart).1
    have room := lends.live.offset
    have floor := lends.live.floor
    have above : data ≤ ptr := mine.above
    have aligned : old.align ∣ ptr := mine.aligned
    have inside : ptr + old.size ≤ data + world.ctx.offset := mine.inside
    apply ends_resize lends.live held some_ above inside
    · -- the last block: nothing lies behind it
      intro last high fits
      have others : forall block, block ∈ out -> block.1 + block.2.size ≤ ptr := by
        intro block member
        have away := apart block member
        have lies := lends.lies block (List.mem_cons_of_mem _ member)
        have low := lies.inside
        have positive := lies.some_
        unfold Region.Apart Region.stop Parent.region at away
        dsimp only at away
        omega
      have kept : forall block, block ∈ out -> block.1 + block.2.size ≤ data + (ptr - data + newSize) := by
        intro block member
        have low := others block member
        omega
      have away : forall block, block ∈ out -> Region.Apart ⟨ptr, newSize⟩ (Parent.region block) :=
        fun block member => Or.inr (others block member)
      have grown := lends.tail.cons ⟨newSize, old.align⟩ some_ above (by omega) fits
        (show ptr + newSize ≤ _ by omega) aligned kept away
      refine ⟨⟨Intact.refl _ _, grown, ?_, fun _ _ => rfl⟩, fun impossible => by cases impossible⟩
      exact lends.tail.fresh above (by omega) aligned away
    · intro less
      have away : forall block, block ∈ out -> Region.Apart ⟨ptr, newSize⟩ (Parent.region block) :=
        fun block member => (apart block member).within (Region.within_of_le less) (Region.Within.refl _)
      have shrunk := lends.tail.cons ⟨newSize, old.align⟩ some_ above floor room
        (show ptr + newSize ≤ _ by omega) aligned (fun block member => (lends.tail.lies block member).inside) away
      refine ⟨⟨Intact.refl _ _, shrunk, ?_, fun _ _ => rfl⟩, fun impossible => by cases impossible⟩
      exact lends.tail.fresh above (by omega) aligned away
    · exact ⟨⟨Intact.refl _ _, lends, Intact.refl _ _⟩, fun _ able => able⟩
  remap := fun _ impossible => by cases impossible
  dealloc := by
    intro world out ptr layout lends _
    change Ends (dealloc ptr layout) world _
    simp only [dealloc, ends_bind, World.ends_self, ends_assertArena lends.live]
    exact ⟨lends.tail, Intact.refl _ _⟩
  write := by
    intro world out block region content lends inside within
    have lies := lends.lies block inside
    have room := lends.live.offset
    have mine : region.Within (Parent.region home) := by
      refine within.trans (Region.Within.trans ⟨lies.above, ?_⟩ lends.within)
      have stop := lies.inside
      unfold Region.stop Parent.region
      dsimp only
      omega
    have written := meets.write world.below home region content lends.good lends.owned mine
    exact ⟨lends.live, written.1, written.2.symm ▸ lends.owned, lends.within, lends.lies, lends.apart⟩

/-! ## From the making of an arena to its end -/

/-- Any bytes without an alignment may be asked for. -/
theorem asked_bytes {size : Nat} (fits : size < sizeRange) : Layout.Asked ⟨size, 1⟩ :=
  have isAlign : Layout.isAlign 1 = true := by decide
  have small : 1 < sizeRange := by decide
  ⟨isAlign, fits, small⟩

/-- The arena has one block of its parent's, and hands out nothing yet. -/
theorem ends_initCap (meets : below.Meets parent) {s : P} {cap : Nat} (good : below.good s) (gives : below.gives 1)
    (some_ : 0 < cap) (fits : cap < sizeRange) :
    Ends (initCap cap parent) s fun result later => below.good later ∧
      match result with
      | (status, none) => status = .errNoMem ∧ below.live later = below.live s
      | (status, some arena) => status = .ok ∧ arena.parent = some parent ∧ exists data,
          below.live later = insert (data, blockLayout arena.cap) (below.live s) ∧
            Lends below data (data, blockLayout arena.cap) ⟨arena, later⟩ [] := by
  simp only [initCap, ends_bind, ends_require, some_, true_and]
  refine (meets.serves.ends_allocate good trivial (asked_bytes fits) gives).mono ?_
  rintro answer later ⟨grants, _⟩
  cases answer with
  | none =>
      simp only [ends_pure]
      exact ⟨grants.good, trivial, grants.outcome⟩
  | some data =>
      rcases grants.outcome with ⟨fresh, grown⟩
      simp only [ends_pure]
      refine ⟨grants.good, trivial, rfl, data, grown, ⟨rfl, fresh.real, fresh.room, some_, Nat.le_refl 0,
        Nat.zero_le _⟩, grants.good, ?_, Region.Within.refl _, fun _ inside => absurd inside List.not_mem_nil, .nil⟩
      exact grown ▸ Set.mem_insert _ _

omit [HasBytes P] in
/-- Whatever was handed out before a mark is out after the rewind to it. -/
theorem ends_rewind_to (lends : Lends below data home world out) {later : World (Arena P) P}
    {more : List (Nat × Layout)} (then_ : Lends below data home later more) (same : later.ctx.cap = world.ctx.cap)
    (low : world.ctx.offset ≤ later.ctx.offset) :
    Ends (rewind ⟨world.ctx.offset, world.ctx.floor⟩) later fun _ back => Lends below data home back out := by
  have floor := lends.live.floor
  have fits : world.ctx.offset ≤ later.ctx.cap := same.symm ▸ lends.live.offset
  simp only [rewind, ends_bind, World.ends_self, ends_assertArena then_.live, ends_require, World.ends_setSelf,
    low, floor, true_and]
  exact ⟨then_.live.moved floor fits, then_.good, then_.owned, then_.within, lends.lies, lends.apart⟩

/-- The block goes back to the parent, if it is the parent's. -/
theorem ends_deinit (meets : below.Meets parent)
    (lends : Lends below data (data, blockLayout world.ctx.cap) world out) (own : world.ctx.parent = some parent) :
    Ends (deinit world.ctx) world.below fun arena later =>
      arena = inert ∧ below.Releases (data, blockLayout world.ctx.cap) world.below later := by
  have fits : world.ctx.cap < sizeRange := Nat.lt_of_le_of_lt (Nat.le_add_left _ _) lends.live.room
  simp only [deinit, lends.live.data_eq, own, ends_bind, ends_assertArena lends.live]
  refine (meets.serves.ends_deallocate lends.good lends.owned (asked_bytes fits).isAlign lends.live.cap).mono ?_
  exact fun _ later releases => (ends_pure _ _ _).mpr ⟨rfl, releases⟩

/-- An arena over whatever meets the contract of its hooks meets it as well, from the
making of it on: it takes one block, hands out parts of it that stay apart, and never
touches a byte of them.  What is free of it by its statistics is what a request
without an alignment can get.  A reset takes all back, a rewind to a mark leaves what
was out at the mark, and the end gives back the one block and nothing else. -/
theorem arenas_meet_contract (meets : below.Meets parent) :
    (forall s cap, below.good s -> below.gives 1 -> 0 < cap -> cap < sizeRange ->
      Ends (initCap cap parent) s fun result later => below.good later ∧
        match result with
        | (status, none) => status = .errNoMem ∧ below.live later = below.live s
        | (status, some arena) => status = .ok ∧ arena.parent = some parent ∧ exists data,
            below.live later = insert (data, blockLayout arena.cap) (below.live s) ∧
              Lends below data (data, blockLayout arena.cap) ⟨arena, later⟩ []) ∧
      forall data home, (Booked.ledger (fun _ => True) (Lends below data home)).Meets (toAl P).booked ∧
        forall world out, Lends below data home world out ->
          (Ends (stats world.ctx) world fun stats later => later = world ∧
            stats.used + stats.free = stats.cap ∧ forall size, 0 < size -> size < sizeRange ->
              Ends (AlVtable.allocate (toAl P) ⟨size, 1⟩) world fun ptr _ => ptr = none <-> stats.free < size) ∧
          Ends reset world (fun _ later => Lends below data home later []) ∧
          (Ends mark world fun mark marked => Lends below data home marked out ∧
            forall later more, Lends below data home later more -> later.ctx.cap = world.ctx.cap ->
              mark.offset ≤ later.ctx.offset ->
              Ends (rewind mark) later fun _ back => Lends below data home back out) ∧
          (home = (data, blockLayout world.ctx.cap) -> world.ctx.parent = some parent ->
            Ends (deinit world.ctx) world.below fun arena later =>
              arena = inert ∧ below.Releases home world.below later) := by
  refine ⟨fun s cap good gives some_ fits => ends_initCap meets good gives some_ fits, fun data home => ?_⟩
  refine ⟨(keeps meets data home).serves.meets, fun world out lends => ⟨?_, ?_, ?_, ?_⟩⟩
  · have room := lends.live.room
    have offset := lends.live.offset
    have free : wrapSub world.ctx.cap world.ctx.offset = world.ctx.cap - world.ctx.offset :=
      wrapSub_eq (by omega) offset
    simp only [stats, ends_bind, ends_assertArena lends.live, ends_pure, free]
    refine ⟨trivial, by omega, fun size some_ fits => ?_⟩
    have unpadded : Live.pad world.ctx data 1 = 0 := Nat.and_zero _
    apply ends_allocate lends.live (asked_bytes fits)
    · exact fun empty => absurd empty (Nat.ne_of_gt some_)
    · intro _ full
      rw [unpadded] at full
      have less : world.ctx.cap - world.ctx.offset < size := by
        dsimp only at full
        omega
      exact ⟨fun _ => less, fun _ => rfl⟩
    · intro _ start same _ fits
      rw [unpadded] at same
      refine ⟨fun impossible => (by cases impossible), fun less => ?_⟩
      dsimp only at fits
      omega
  · simp only [reset, ends_bind, World.ends_self, ends_assertArena lends.live, World.ends_setSelf]
    exact lends.fewer (List.nil_sublist _) (Nat.le_refl 0) (Nat.zero_le _) fun _ inside => absurd inside List.not_mem_nil
  · simp only [mark, ends_bind, World.ends_self, ends_assertArena lends.live, World.ends_setSelf, ends_pure]
    refine ⟨lends.fewer (List.Sublist.refl _) (Nat.le_refl _) lends.live.offset
      fun block inside => (lends.lies block inside).inside, ?_⟩
    exact fun later more then_ same low => ends_rewind_to lends then_ same low
  · rintro rfl own
    exact ends_deinit meets lends own

/-- An arena over an honest parent. -/
theorem arenas_meet_contract_of_parent :
    (Booked.ledger (fun _ => True) (Lends Parent.ledger 4096 (4096, blockLayout 64))).Meets (toAl Parent).booked :=
  ((arenas_meet_contract Parent.meets).2 4096 (4096, blockLayout 64)).1

end Arena
end TerseDsa
