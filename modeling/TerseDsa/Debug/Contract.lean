import TerseDsa.Debug.Safety
import TerseDsa.Debug.Twins
import TerseDsa.Alloc.Booked

namespace TerseDsa

open Foundation Run AlVtable

/-!
# The contract of a debug allocator

As long as its requests can be counted, the hooks of a debug allocator meet the
contract of an allocator's hooks, over any honest parent: no client that keeps to
its own blocks is ever reported, and none sees that its blocks are watched.
-/

namespace BlockTable

variable {S : Type} {s : S} {addr : Nat}

theorem allows_find (table : BlockTable) {post : Option BlockRecord -> S -> Prop}
    (holds : forall found, post found s) : Allows (table.find addr) s post := by
  intro found later ran
  have alone : Run.Matches (fun t (_ : Unit) => t = s) Eq (table.find addr) (table.find addr) :=
    table.find_matches addr
  rcases alone.ends_eq (t := ()) rfl ran with ⟨_, _, _, _, rfl⟩
  exact holds found

end BlockTable

namespace Debug

open DebugProgram (Invariant Live)

variable {others out : List (Nat × Layout)} {debug : Debug Parent} {parent later : Parent} {default : DefaultAl}
  {blocks : List BlockRecord} {serials : List Nat} {peak ptr newSize serial : Nat} {layout old : Layout}
  {entry : BlockRecord} {freed : FreedBlock}

/-- A block as its owner has it: the guard is not part of it. -/
def lent (block : BlockRecord) : Nat × Layout := (block.addr, block.layout)

/-- The blocks that are out of a debug allocator, each in front of its guard. -/
structure Watches (others : List (Nat × Layout)) (world : Worlds Parent) (out : List (Nat × Layout)) : Prop where
  books : exists blocks serials peak, Invariant ⟨world, blocks, serials, peak⟩ others ∧ (blocks.map lent).Perm out
  guards : forall block, block ∈ out -> DebugProgram.Intact world.below.below.bytes block.1 block.2
  good : Parent.ledger.good world.below.below

theorem Watches.perm {world : Worlds Parent} {more : List (Nat × Layout)} (watches : Watches others world out)
    (perm : out.Perm more) : Watches others world more := by
  rcases watches with ⟨⟨blocks, serials, peak, invariant, same⟩, guards, good⟩
  exact ⟨⟨blocks, serials, peak, invariant, same.trans perm⟩,
    fun block inside => guards block (perm.mem_iff.mpr inside), good⟩

/-! ## Where the blocks are -/

/-- The two parts of a block as the parent has it. -/
theorem parts_within (ptr : Nat) (layout : Layout) :
    (Parent.region (ptr, layout)).Within (Parent.region (guarded ptr layout)) ∧
      Region.Within ⟨ptr + layout.size, guardSize⟩ (Parent.region (guarded ptr layout)) := by
  unfold Region.Within Region.stop Parent.region guarded
  dsimp only
  omega

/-- A block that is out and one that is not the same lie apart, guards and all. -/
theorem guarded_apart (invariant : Invariant ⟨⟨debug, ⟨parent, default⟩⟩, blocks, serials, peak⟩ others)
    (inside : entry ∈ blocks) {other : BlockRecord} (also : other ∈ blocks) (different : entry ≠ other) :
    (Parent.region (guarded entry.addr entry.layout)).Apart (Parent.region (guarded other.addr other.layout)) := by
  have apart := List.pairwise_map.mp (List.pairwise_append.mp invariant.apart).1
  exact Region.apart_of_pairwise (fun block : BlockRecord => Parent.region (guarded block.addr block.layout)) apart
    inside also different

/-- Regions that are not empty and lie apart are two. -/
theorem guarded_ne {block other : Nat × Layout} (apart : (Parent.region block).Apart (Parent.region other))
    (some_ : 0 < block.2.size) : block ≠ other := by
  rintro rfl
  unfold Region.Apart Region.stop Parent.region at apart
  dsimp only at apart
  omega

/-- What is kept of the blocks that the parent has out is kept of those that are watched. -/
theorem watched_of_parent {live : Set (Nat × Layout)} {before after : Bytes} (intact : Intact live before after)
    (kept_ : forall block, block ∈ blocks -> guarded block.addr block.layout ∈ live) (inside : entry ∈ blocks) :
    Intact {lent entry} before after ∧
      (DebugProgram.Intact before entry.addr entry.layout -> DebugProgram.Intact after entry.addr entry.layout) := by
  have within := parts_within entry.addr entry.layout
  constructor
  · rintro _ rfl addr covers
    exact intact _ (kept_ entry inside) addr
      ⟨Nat.le_trans within.1.1 covers.1, Nat.lt_of_lt_of_le covers.2 within.1.2⟩
  · intro guard addr covers
    exact (intact _ (kept_ entry inside) addr
      ⟨Nat.le_trans within.2.1 covers.1, Nat.lt_of_lt_of_le covers.2 within.2.2⟩).trans (guard addr covers)

/-- What a block costs the parent. -/
theorem ckdParentLayout_some {withGuard : Layout} (fits : ckdParentLayout layout = some withGuard) :
    withGuard = ⟨layout.size + guardSize, layout.align⟩ ∧ withGuard.size < sizeRange := by
  unfold ckdParentLayout ckdAdd at fits
  split at fits
  · cases fits
    exact ⟨rfl, ‹_›⟩
  · cases fits

/-! ## What the hooks do to memory -/

theorem keeps_filled (bytes : Bytes) (ptr : Nat) (layout : Layout) :
    Bytes.Keeps bytes ((bytes.fill ptr layout.size fillNew).fill (ptr + layout.size) guardSize fillGuard)
      (Parent.region (guarded ptr layout)) := by
  intro addr outside
  have within := parts_within ptr layout
  have second : ¬ Region.Covers ⟨ptr + layout.size, guardSize⟩ addr := fun covers =>
    outside ⟨Nat.le_trans within.2.1 covers.1, Nat.lt_of_lt_of_le covers.2 within.2.2⟩
  have first : ¬ (Parent.region (ptr, layout)).Covers addr := fun covers =>
    outside ⟨Nat.le_trans within.1.1 covers.1, Nat.lt_of_lt_of_le covers.2 within.1.2⟩
  exact (if_neg second).trans (if_neg first)

/-- A block that the parent handed out is filled, or the parent has it back. -/
theorem spares_record (good : Parent.ledger.good parent) (isOut : guarded ptr layout ∈ parent.out)
    (isAlign : Layout.isAlign layout.align = true) :
    Allows (record Parent.toAl ptr layout (guarded ptr layout).2 serial) ⟨debug, ⟨parent, default⟩⟩
      fun verdict later => Parent.ledger.good later.below.below ∧
        Intact (Parent.ledger.live parent \ {guarded ptr layout}) parent.bytes later.below.below.bytes ∧
        forall addr, verdict = .ok (some addr) ->
          addr = ptr ∧ DebugProgram.Intact later.below.below.bytes ptr layout := by
  have guard : 0 < guardSize := by decide
  simp only [record, allows_bind, World.allows_self]
  apply BlockTable.allows_find
  intro found
  cases found with
  | some live =>
      rw [allows_pure]
      exact ⟨good, Intact.refl _ _, fun _ impossible => (by cases impossible)⟩
  | none =>
      dsimp only
      cases debug.quarantineFind ptr with
      | some freed =>
          rw [allows_pure]
          exact ⟨good, Intact.refl _ _, fun _ impossible => (by cases impossible)⟩
      | none =>
          simp only [allows_bind, allows_onDefault]
          rintro ⟨inserted, table⟩ after _
          rw [World.allows_setSelf]
          by_cases done : inserted = true
          · rw [if_pos done]
            simp only [allows_bind, setBytes, allows_modify, World.allows_setSelf, allows_pure]
            refine ⟨good, ?_, ?_⟩
            · exact Parent.intact_erase good isOut (keeps_filled _ _ _)
            · rintro _ ⟨⟩
              exact ⟨rfl, fun addr covers => if_pos covers⟩
          · rw [if_neg done]
            simp only [allows_bind, allows_onParent, allows_pure]
            refine (Parent.meets.serves.ends_deallocate good isOut isAlign (Nat.add_pos_right _ guard)).allows.mono ?_
            exact fun _ later releases => ⟨releases.good, releases.intact, fun _ impossible => (by cases impossible)⟩

/-- A request touches no byte of the parent's blocks, and what it hands out has its guard. -/
theorem spares_alloc (parent_ : debug.parent = some Parent.toAl) (good : Parent.ledger.good parent)
    (asked : layout.Asked) (some_ : 0 < layout.size) :
    Allows (Debug.alloc layout) ⟨debug, ⟨parent, default⟩⟩ fun verdict later =>
      Parent.ledger.good later.below.below ∧
        Intact (Parent.ledger.live parent) parent.bytes later.below.below.bytes ∧
        forall addr, verdict = .ok (some addr) -> DebugProgram.Intact later.below.below.bytes addr layout := by
  have unmoved : Parent.ledger.good parent ∧ Intact (Parent.ledger.live parent) parent.bytes parent.bytes :=
    ⟨good, Intact.refl _ _⟩
  simp only [Debug.alloc, assertDebug, allows_bind, World.allows_self, parent_]
  apply allows_demand
  rintro _ ⟨⟩
  rw [allows_require]
  intro _
  simp only [nextSerial, allows_bind, World.allows_self, World.allows_setSelf]
  split_ifs
  · simp only [allows_pure]
    exact ⟨unmoved.1, unmoved.2, fun _ impossible => (by cases impossible)⟩
  · simp only [allows_pure, if_true]
    exact ⟨unmoved.1, unmoved.2, fun _ impossible => (by cases impossible)⟩
  · simp only [allows_pure]
    split_ifs
    · rw [allows_pure]
      exact ⟨unmoved.1, unmoved.2, fun _ impossible => (by cases impossible)⟩
    · cases fits : ckdParentLayout layout with
      | none =>
          rw [allows_pure]
          exact ⟨unmoved.1, unmoved.2, fun _ impossible => (by cases impossible)⟩
      | some withGuard =>
          rcases ckdParentLayout_some fits with ⟨rfl, room⟩
          simp only [allows_bind, allows_onParent]
          have wanted : Layout.Asked ⟨layout.size + guardSize, layout.align⟩ := ⟨asked.isAlign, room, asked.align⟩
          refine (Parent.meets.serves.ends_allocate good trivial wanted trivial).allows.mono ?_
          rintro answer middle ⟨grants, _⟩
          cases answer with
          | none =>
              rw [allows_pure]
              exact ⟨grants.good, grants.intact, fun _ impossible => (by cases impossible)⟩
          | some ptr =>
              rcases grants.outcome with ⟨fresh, grown⟩
              have isOut : guarded ptr layout ∈ middle.out := by
                change guarded ptr layout ∈ Parent.ledger.live middle
                rw [grown]
                exact Set.mem_insert _ _
              refine (spares_record grants.good isOut asked.isAlign).mono ?_
              rintro verdict later ⟨goodThen, intact, guard⟩
              refine ⟨goodThen, grants.intact.trans (intact.anti ?_), ?_⟩
              · intro block inside
                rw [grown]
                exact ⟨Set.mem_insert_of_mem _ inside,
                  fun same => fresh.ne (Nat.add_pos_left some_ _) inside (Set.mem_singleton_iff.mp same).symm⟩
              · rintro addr same
                rcases guard addr same with ⟨rfl, whole⟩
                exact whole

/-- The oldest block goes back to the parent, and no other is touched. -/
theorem spares_releaseOldest (parent_ : debug.parent = some Parent.toAl) (good : Parent.ledger.good parent)
    (isOut : 0 < debug.quarantineLen ->
      guarded (debug.quarantined 0).ptr (debug.quarantined 0).layout ∈ parent.out ∧
        Layout.isAlign (debug.quarantined 0).layout.align = true) :
    Allows releaseOldest ⟨debug, ⟨parent, default⟩⟩ fun _ later => Parent.ledger.good later.below.below ∧
      Intact (Parent.ledger.live parent \ {guarded (debug.quarantined 0).ptr (debug.quarantined 0).layout})
        parent.bytes later.below.below.bytes := by
  have guard : 0 < guardSize := by decide
  simp only [releaseOldest, assertDebug, allows_bind, World.allows_self, parent_]
  apply allows_demand
  rintro _ ⟨⟩
  rw [allows_require]
  intro more
  rw [World.allows_setSelf]
  apply allows_demand
  intro withGuard fits
  rcases ckdParentLayout_some fits with ⟨rfl, _⟩
  rw [Run.allows_get]
  split_ifs
  · simp only [allows_bind, allows_onParent, allows_pure]
    refine (Parent.meets.serves.ends_deallocate good (isOut more).1 (isOut more).2
      (Nat.add_pos_right _ guard)).allows.mono ?_
    exact fun _ later releases => ⟨releases.good, releases.intact⟩
  · rw [allows_pure]
    exact ⟨good, Intact.refl _ _⟩

/-- A block is held back, and at most the oldest one goes. -/
theorem spares_quarantinePush (parent_ : debug.parent = some Parent.toAl) (good : Parent.ledger.good parent)
    (isOut : 0 < debug.quarantineLen ->
      guarded (debug.quarantined 0).ptr (debug.quarantined 0).layout ∈ parent.out ∧
        Layout.isAlign (debug.quarantined 0).layout.align = true) :
    Allows (quarantinePush freed) ⟨debug, ⟨parent, default⟩⟩ fun _ later =>
      Parent.ledger.good later.below.below ∧ forall live : Set (Nat × Layout), live ⊆ Parent.ledger.live parent ->
        (0 < debug.quarantineLen -> guarded (debug.quarantined 0).ptr (debug.quarantined 0).layout ∉ live) ->
        Intact live parent.bytes later.below.below.bytes := by
  simp only [quarantinePush, allows_bind, World.allows_self]
  by_cases full : debug.quarantineLen = quarantineCap
  · have more : 0 < debug.quarantineLen := full ▸ (by decide : 0 < quarantineCap)
    rw [if_pos full]
    simp only [allows_bind]
    refine (spares_releaseOldest parent_ good isOut).mono ?_
    rintro verdict ⟨ctx, ⟨after, beside⟩⟩ ⟨goodThen, intact⟩
    have kept_ : forall live : Set (Nat × Layout), live ⊆ Parent.ledger.live parent ->
        (0 < debug.quarantineLen -> guarded (debug.quarantined 0).ptr (debug.quarantined 0).layout ∉ live) ->
        Intact live parent.bytes after.bytes := by
      intro live sub other
      refine intact.anti fun block inside => ⟨sub inside, fun same => other more ?_⟩
      exact (Set.mem_singleton_iff.mp same) ▸ inside
    cases verdict with
    | error report =>
        rw [allows_pure]
        exact ⟨goodThen, kept_⟩
    | ok _ =>
        simp only [pushNewest, allows_bind, World.allows_self, World.allows_setSelf, allows_pure]
        exact ⟨goodThen, kept_⟩
  · rw [if_neg full]
    simp only [pushNewest, allows_bind, World.allows_self, World.allows_setSelf, allows_pure]
    exact ⟨good, fun _ _ _ => Intact.refl _ _⟩

/-- Giving a block back touches no byte of the other blocks, nor of their guards. -/
theorem spares_dealloc (invariant : Invariant ⟨⟨debug, ⟨parent, default⟩⟩, blocks, serials, peak⟩ others)
    (good : Parent.ledger.good parent) (mine : entry ∈ blocks) :
    Allows (Debug.dealloc entry.addr entry.layout) ⟨debug, ⟨parent, default⟩⟩ fun _ later =>
      Parent.ledger.good later.below.below ∧
        Intact {block | exists other, other ∈ blocks ∧ other ≠ entry ∧ guarded other.addr other.layout = block}
          parent.bytes later.below.below.bytes := by
  have parent_ : debug.parent = some Parent.toAl := invariant.parent
  have live : Live blocks entry.addr entry.layout := ⟨entry, mine, rfl, rfl⟩
  have oldest : 0 < debug.quarantineLen -> debug.quarantined 0 ∈ debug.waiting :=
    fun more => List.mem_map_of_mem (List.mem_range.mpr more)
  have apartBy := List.pairwise_append.mp invariant.apart
  simp only [Debug.dealloc, assertDebug, allows_bind, World.allows_self, parent_]
  apply allows_demand
  rintro _ ⟨⟩
  apply Ends.allows
  apply DebugProgram.ends_checkedEntry_take invariant
  · exact fun not_ => absurd live not_
  · intro found after _ _ _ _
    simp only [allows_bind, Run.allows_get]
    split_ifs
    · simp only [allows_bind, World.allows_self, World.allows_setSelf]
      apply allows_demand
      intro withGuard fits
      rcases ckdParentLayout_some fits with ⟨rfl, _⟩
      simp only [setBytes, allows_modify]
      -- the block itself is filled, and the oldest one may go
      have filled : Bytes.Keeps parent.bytes
          (parent.bytes.fill entry.addr (entry.layout.size + guardSize) fillFreed)
          (Parent.region (guarded entry.addr entry.layout)) := Bytes.keeps_overwrite _ _ _
      have own : Intact {block | exists other, other ∈ blocks ∧ other ≠ entry ∧
          guarded other.addr other.layout = block} parent.bytes
          (parent.bytes.fill entry.addr (entry.layout.size + guardSize) fillFreed) := by
        refine Intact.of_keeps filled ?_
        rintro _ ⟨other, inside, different, rfl⟩
        exact guarded_apart invariant mine inside different.symm
      have isOut : 0 < debug.quarantineLen ->
          guarded (debug.quarantined 0).ptr (debug.quarantined 0).layout ∈ parent.out ∧
            Layout.isAlign (debug.quarantined 0).layout.align = true := by
        intro more
        have waits : _ ∈ kept blocks debug.waiting := DebugProgram.mem_kept_freed (oldest more)
        exact ⟨invariant.kept_mem waits, (invariant.placed _ waits).2.2⟩
      refine Allows.mono (@spares_quarantinePush { debug with
          table := after, liveBytes := wrapSub debug.liveBytes entry.layout.size }
        { parent with bytes := parent.bytes.fill entry.addr (entry.layout.size + guardSize) fillFreed } default
        ⟨entry.addr, entry.layout, found.serial⟩ parent_ good isOut) ?_
      rintro _ later ⟨goodThen, kept_⟩
      refine ⟨goodThen, own.trans (kept_ _ ?_ ?_)⟩
      · rintro _ ⟨other, inside, _, rfl⟩
        exact invariant.kept_mem (DebugProgram.mem_kept_block inside)
      · rintro more ⟨other, inside, _, same⟩
        have apart := apartBy.2.2 _ (List.mem_map_of_mem inside) _ (List.mem_map_of_mem (oldest more))
        exact guarded_ne apart (Nat.add_pos_right _ (by decide)) same
    · rw [allows_pure]
      exact ⟨good, Intact.refl _ _⟩

/-! ## The contract -/

/-- The record of a block that is out. -/
theorem exists_record {block : Nat × Layout} (same : (blocks.map lent).Perm out) (inside : block ∈ out) :
    exists entry, entry ∈ blocks ∧ lent entry = block :=
  List.mem_map.mp (same.mem_iff.mpr inside)

/-- The newest block lies apart from the others. -/
theorem fresh_of {world : Worlds Parent} (invariant : Invariant ⟨world, entry :: blocks, serials, peak⟩ others)
    (aligned : entry.layout.align ∣ entry.addr) (same : (blocks.map lent).Perm out) :
    Fresh (Booked.those out) entry.addr entry.layout := by
  rcases world with ⟨debug, ⟨parent, default⟩⟩
  have placed := invariant.block_placed List.mem_cons_self
  refine ⟨placed.1, by omega, aligned, fun block inside => ?_⟩
  rcases exists_record same inside with ⟨other, there, rfl⟩
  have different : entry ≠ other := by
    rintro rfl
    exact (List.nodup_cons.mp invariant.table.distinct).1 (List.mem_map_of_mem there)
  have apart := guarded_apart invariant List.mem_cons_self (List.mem_cons_of_mem _ there) different
  exact apart.within (parts_within _ _).1 (parts_within _ _).1

/-- Nothing but the parent's other blocks was touched: the blocks that are out are as they were, and guarded. -/
theorem Watches.untouched {world : Worlds Parent} (watches : Watches others world out) {after : Bytes}
    (intact : Intact (Parent.ledger.live world.below.below) world.below.below.bytes after) :
    Intact (Booked.those out) world.below.below.bytes after ∧
      forall block, block ∈ out -> DebugProgram.Intact after block.1 block.2 := by
  rcases world with ⟨debug, ⟨parent, default⟩⟩
  rcases watches with ⟨⟨blocks, serials, peak, invariant, same⟩, guards, _⟩
  have each : forall block, block ∈ out -> Intact {block} parent.bytes after ∧
      (DebugProgram.Intact parent.bytes block.1 block.2 -> DebugProgram.Intact after block.1 block.2) := by
    intro block inside
    rcases exists_record same inside with ⟨entry, there, rfl⟩
    exact watched_of_parent intact (fun other also => invariant.kept_mem (DebugProgram.mem_kept_block also)) there
  exact ⟨fun block inside => (each block inside).1 block rfl, fun block inside => (each block inside).2 (guards block inside)⟩

/-- The debug allocator can count one more request. -/
def CanCount (world : Worlds Parent) : Prop := world.ctx.requests + 1 < 2 ^ 64

/-- The hooks of a debug allocator keep its watch, and report nothing. -/
theorem keeps (others : List (Nat × Layout)) :
    Booked.Keeps (fun _ => True) CanCount (Watches others) (toAl Parent) where
  perm := Watches.perm
  alloc := by
    rintro ⟨debug, ⟨parent, default⟩⟩ out layout watches more asked _ some_
    rcases watches.books with ⟨blocks, serials, peak, invariant, same⟩
    have ends : Ends (Debug.alloc layout) ⟨debug, ⟨parent, default⟩⟩ fun verdict world =>
        verdict = .ok none ∧ Invariant ⟨world, blocks, serials, peak⟩ others ∨
          exists addr, verdict = .ok (some addr) ∧ layout.align ∣ addr ∧ exists serial serials peak,
            Invariant ⟨world, ⟨addr, layout, serial⟩ :: blocks, serials, peak⟩ others := by
      apply DebugProgram.ends_alloc invariant more asked some_
      · exact fun world _ held => Or.inl ⟨rfl, held⟩
      · exact fun addr world _ aligned _ held => Or.inr ⟨addr, rfl, aligned, _, _, _, held⟩
    refine DebugProgram.ends_orAbort.mpr
      ((ends.and_allows (spares_alloc invariant.parent watches.good asked some_)).mono ?_)
    rintro _ later ⟨⟨rfl, held⟩ | ⟨addr, rfl, aligned, serial, serials, peak, held⟩, good, intact, guard⟩
    · rcases watches.untouched intact with ⟨kept_, guards⟩
      exact ⟨none, rfl, kept_, ⟨blocks, serials, peak, held, same⟩, guards, good⟩
    · rcases watches.untouched intact with ⟨kept_, guards⟩
      refine ⟨some addr, rfl, kept_, ⟨⟨_, serials, peak, held, same.cons _⟩, ?_, good⟩, fresh_of held aligned same⟩
      exact List.forall_mem_cons.mpr ⟨guard addr rfl, guards⟩
  allocZeroed := fun _ impossible => by cases impossible
  resize := fun _ impossible => by cases impossible
  remap := by
    rintro _ ⟨⟩ ⟨debug, ⟨parent, default⟩⟩ out ptr old newSize watches held some_ _
    rcases watches.books with ⟨blocks, serials, peak, invariant, same⟩
    rcases exists_record same List.mem_cons_self with ⟨entry, there, is_⟩
    refine DebugProgram.ends_orAbort.mpr ?_
    apply DebugProgram.ends_remap invariant held some_
    · exact fun not_ => absurd ⟨entry, there, congrArg Prod.fst is_, congrArg Prod.snd is_⟩ not_
    · exact fun _ => ⟨none, rfl, ⟨Intact.refl _ _, watches, Intact.refl _ _⟩, fun _ able => able⟩
  dealloc := by
    rintro ⟨debug, ⟨parent, default⟩⟩ out ptr layout watches _
    rcases watches.books with ⟨blocks, serials, peak, invariant, same⟩
    rcases exists_record same List.mem_cons_self with ⟨entry, there, is_⟩
    cases is_
    have guard : DebugProgram.Intact parent.bytes entry.addr entry.layout := watches.guards _ List.mem_cons_self
    have distinct : (blocks.map BlockRecord.addr).Nodup := invariant.table.distinct
    have ends : Ends (Debug.dealloc entry.addr entry.layout) ⟨debug, ⟨parent, default⟩⟩ fun verdict world =>
        verdict = .ok () ∧ Invariant ⟨world, blocks.erase entry, serials, peak⟩ others := by
      apply DebugProgram.ends_dealloc invariant (Nat.ne_of_gt (invariant.block_placed there).1)
      · exact fun not_ => absurd ⟨⟨entry, there, rfl, rfl⟩, guard⟩ not_
      · intro found world inside at_ _ _ _ held
        rw [DebugProgram.entry_eq distinct inside there at_] at held
        exact ⟨rfl, held⟩
    refine DebugProgram.ends_orAbort.mpr ((ends.and_allows (spares_dealloc invariant watches.good there)).mono ?_)
    rintro _ later ⟨⟨rfl, held⟩, good, intact⟩
    have rest : ((blocks.erase entry).map lent).Perm out :=
      (((List.perm_cons_erase there).map lent).symm.trans same).cons_inv
    have each : forall block, block ∈ out -> Intact {block} parent.bytes later.below.below.bytes ∧
        (DebugProgram.Intact parent.bytes block.1 block.2 ->
          DebugProgram.Intact later.below.below.bytes block.1 block.2) := by
      intro block inside
      rcases exists_record rest inside with ⟨other, also, rfl⟩
      refine watched_of_parent intact (fun other also => ?_) also
      exact ⟨other, List.mem_of_mem_erase also, (distinct.of_map.mem_erase_iff.mp also).1, rfl⟩
    refine ⟨(), rfl, ⟨⟨_, serials, peak, held, rest⟩, fun block inside => ?_, good⟩, fun block inside => ?_⟩
    · exact (each block inside).2 (watches.guards block (List.mem_cons_of_mem _ inside))
    · exact (each block inside).1 block rfl
  write := by
    rintro ⟨debug, ⟨parent, default⟩⟩ out block region content watches inside within
    rcases watches.books with ⟨blocks, serials, peak, invariant, same⟩
    rcases exists_record same inside with ⟨entry, there, rfl⟩
    have wide := within.trans (parts_within entry.addr entry.layout).1
    refine ⟨⟨blocks, serials, peak, invariant.written there wide content, same⟩, ?_, watches.good⟩
    intro other also addr covers
    rcases exists_record same also with ⟨second, its, rfl⟩
    have outside : ¬ region.Covers addr := by
      by_cases equal : entry = second
      · subst equal
        intro mine
        have above := covers.1
        have below := Nat.lt_of_lt_of_le mine.2 within.2
        exact absurd below (Nat.not_lt_of_le above)
      · have apart := (guarded_apart invariant there its equal).within wide (parts_within _ _).2
        exact fun mine => apart.not_covers mine covers
    exact (if_neg outside).trans (watches.guards _ also addr covers)

/-! ## Counts and leaks -/

variable {C : Type}

/-- The leaks are listed in the order of the slots, and then counted. -/
theorem ends_fprintLeaks {S : Type} {s : S} (pointer : Nat -> String) (parent_ : debug.parent = some Parent.toAl)
    (length : debug.table.slots.length = debug.table.cap) (paper : OutStream × C) :
    Ends (fprintLeaks pointer debug paper) s fun printed later => later = s ∧ printed =
      writeAll (((debug.table.slots.filter BlockTable.occupied).map (leakLine pointer) ++ [leaksLine debug]).map
        OutStream.put) 0 paper := by
  simp only [fprintLeaks, assertDebug, parent_, ends_bind, ends_demand_some]
  -- the lines for the slots before `i` are written
  refine ends_countUp (fun i vars later => later = s ∧ vars =
      writeAll ((((debug.table.slots.take i).filter BlockTable.occupied).map (leakLine pointer)).map
        OutStream.put) 0 paper) (Nat.zero_add _) ?_ ?_ ⟨rfl, rfl⟩
  · rintro i vars _ _ low ⟨rfl, rfl⟩
    have there : i < debug.table.slots.length := length.symm ▸ low
    have slot_eq : debug.table.slots[i]? = some debug.table.slots[i] := List.getElem?_eq_getElem there
    simp only [BlockTable.slot, slot_eq, ends_bind, ends_demand_some]
    rw [List.take_succ_eq_append_getElem there, List.filter_append]
    by_cases held : debug.table.slots[i].addr ≠ 0
    · have occupied : BlockTable.occupied debug.table.slots[i] = true := bne_iff_ne.mpr held
      rw [if_pos held, ends_pure, List.filter_cons_of_pos occupied, List.filter_nil, List.map_append,
        List.map_append, writeAll_append]
      exact ⟨rfl, rfl⟩
    · have empty : ¬ BlockTable.occupied debug.table.slots[i] = true := fun occupied => held (bne_iff_ne.mp occupied)
      rw [if_neg held, ends_pure, List.filter_cons_of_neg empty, List.filter_nil, List.append_nil]
      exact ⟨rfl, rfl⟩
  · rintro vars _ ⟨rfl, rfl⟩
    rw [ends_pure, ← length, List.take_length, List.map_append, writeAll_append]
    exact ⟨rfl, rfl⟩

/-- At the end the parent gets back all that waits, and keeps what is out. -/
theorem ends_deinit (invariant : Invariant ⟨⟨debug, ⟨parent, default⟩⟩, blocks, serials, peak⟩ others) :
    Ends deinit ⟨debug, ⟨parent, default⟩⟩ fun verdict later => verdict = .ok () ∧ later.ctx = inert ∧
      later.below.below.out.Perm (blocks.map (fun block => guarded block.addr block.layout) ++ others) := by
  have parent_ : debug.parent = some Parent.toAl := invariant.parent
  simp only [deinit, flushQuarantine, assertDebug, parent_, ends_bind, World.ends_self, ends_demand_some]
  -- each round gives one block back
  refine ends_loop (n := debug.quarantineLen) (fun n _ world => n = world.ctx.quarantineLen ∧
    Invariant ⟨world, blocks, serials, peak⟩ others) ?_ ⟨rfl, invariant⟩ (Nat.lt_succ_self _)
  rintro n _ ⟨debug, ⟨parent, default⟩⟩ ⟨rfl, invariant⟩
  simp only [ends_bind, World.ends_self]
  cases len : debug.quarantineLen with
  | zero =>
      have out := invariant.out
      have nothing : debug.waiting = [] := List.length_eq_zero_iff.mp (DebugProgram.waiting_length.trans len)
      simp only [gt_iff_lt, Nat.lt_irrefl, if_false, ends_bind, ends_pure, World.ends_setSelf]
      refine ⟨trivial, trivial, ?_⟩
      unfold kept at out
      change parent.out.Perm (_ ++ debug.waiting.map _ ++ others) at out
      rw [nothing, List.map_nil, List.append_nil] at out
      exact out
  | succ n =>
      simp only [gt_iff_lt, Nat.succ_pos, if_true, ends_bind]
      apply DebugProgram.ends_releaseOldest invariant len
      intro later _ released
      simp only [ends_pure]
      exact ⟨n, Nat.lt_succ_self n, rfl, released⟩

/-- A debug allocator over an honest parent meets the contract of an allocator's hooks
for as long as it can count its requests, and reports nothing: a client that keeps to
its blocks never notices the guards, the quarantine and the records.  The statistics
count the blocks that are out and their bytes, the leaks are one line for each of
them, and at the end just their memory is still out at the parent's. -/
theorem debug_meets_contract (others : List (Nat × Layout)) :
    (forall (parent : Parent) (default : DefaultAl), Parent.ledger.good parent ->
        Watches parent.out ⟨init Parent.toAl, ⟨parent, default⟩⟩ []) ∧
      (Booked.ledger (fun _ => True) (Watches others)).Serves (fun booked => CanCount booked.state)
        (toAl Parent).booked ∧
      forall world out, Watches others world out ->
        Ends (stats world.ctx) world (fun stats later => later = world ∧ stats.liveBlocks = out.length ∧
          stats.liveBytes = (out.map fun block => block.2.size).sum) ∧
        (forall (pointer : Nat -> String) (paper : OutStream × C),
          Ends (fprintLeaks pointer world.ctx paper) world fun printed later => later = world ∧
            exists entries : List BlockRecord, (entries.map lent).Perm out ∧ printed = writeAll ((entries.map (leakLine pointer) ++
              ["tda debug: " ++ toString out.length ++ " leaked, " ++
                toString (out.map fun block => block.2.size).sum ++ " bytes\n"]).map OutStream.put) 0 paper) ∧
        Ends deinit world fun verdict later => verdict = .ok () ∧ later.ctx = inert ∧
          later.below.below.out.Perm (out.map (fun block => guarded block.1 block.2) ++ others) := by
  refine ⟨?_, (keeps others).serves, ?_⟩
  · intro parent default good
    exact ⟨⟨[], [], 0, DebugProgram.Reachable.init.valid, List.Perm.nil⟩,
      fun _ inside => absurd inside List.not_mem_nil, good⟩
  · rintro ⟨debug, ⟨parent, default⟩⟩ out watches
    rcases watches.books with ⟨blocks, serials, peak, invariant, same⟩
    have parent_ : debug.parent = some Parent.toAl := invariant.parent
    have table : debug.table.Holds blocks := invariant.table
    have len : debug.table.len = out.length := table.len.trans ((List.length_map lent).symm.trans same.length_eq)
    have bytes : debug.liveBytes = (out.map fun block => block.2.size).sum := by
      have sum := (same.map fun block => block.2.size).sum_nat
      rw [List.map_map] at sum
      exact Eq.trans invariant.liveBytes sum
    refine ⟨?_, fun pointer paper => ?_, ?_⟩
    · simp only [stats, assertDebug, parent_, ends_bind, ends_demand_some, ends_pure]
      exact ⟨trivial, len, bytes⟩
    · refine (ends_fprintLeaks pointer parent_ table.length paper).mono ?_
      rintro printed later ⟨rfl, rfl⟩
      refine ⟨rfl, _, (table.content.map lent).trans same, ?_⟩
      rw [leaksLine, len, bytes]
    · refine (ends_deinit invariant).mono ?_
      rintro verdict later ⟨done, gone, left⟩
      have kept_ := same.map fun block => guarded block.1 block.2
      rw [List.map_map] at kept_
      exact ⟨done, gone, left.trans (kept_.append_right others)⟩

end Debug
end TerseDsa
