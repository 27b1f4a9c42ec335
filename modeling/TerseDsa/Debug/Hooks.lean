import TerseDsa.Debug.Program

namespace TerseDsa

open Foundation Run AlVtable

/-!
# The hooks of the debug allocator

A hook either does what was asked for and leaves everything accounted for, or
reports; which of the two depends on what the program holds, and on nothing else.
-/

namespace DebugProgram

open Debug

variable {debug : Debug Parent} {parent later : Parent} {default : DefaultAl} {blocks : List BlockRecord}
  {serials : List Nat} {peak ptr newSize n : Nat} {others : List (Nat × Layout)} {freed : FreedBlock}
  {entry : BlockRecord} {layout : Layout} {region : Region}

theorem ends_onParent {α : Type} {run : Run Parent α} {post : α -> Worlds Parent -> Prop} :
    Ends (onParent run) ⟨debug, ⟨parent, default⟩⟩ post <->
      Ends run parent fun a parent => post a ⟨debug, ⟨parent, default⟩⟩ := by
  unfold onParent
  rw [World.ends_under, ends_zoom]

theorem ends_onDefault {α : Type} {run : Run DefaultAl α} {post : α -> Worlds Parent -> Prop} :
    Ends (onDefault run) ⟨debug, ⟨parent, default⟩⟩ post <->
      Ends run default fun a default => post a ⟨debug, ⟨parent, default⟩⟩ := by
  unfold onDefault
  rw [World.ends_under, ends_zoom]

theorem ends_orAbort {α : Type} {run : Run (Worlds Parent) (Verdict α)} {world : Worlds Parent}
    {post : α -> Worlds Parent -> Prop} :
    Ends (orAbort run) world post <->
      Ends run world fun verdict later => exists a, verdict = .ok a ∧ post a later := by
  simp only [orAbort, ends_bind]
  constructor
  · refine fun ends => ends.mono ?_
    intro verdict later after
    cases verdict with
    | ok a => exact ⟨a, rfl, (ends_pure _ _ _).mp after⟩
    | error report => exact ((ends_failure _ _).mp after).elim
  · refine fun ends => ends.mono ?_
    rintro _ later ⟨a, rfl, after⟩
    exact (ends_pure _ _ _).mpr after

/-! ## The notes of a program -/

/-- The bytes of blocks that lie apart are fewer than there are. -/
theorem total_lt_of {waiting : List FreedBlock}
    (apart : (kept blocks waiting).Pairwise fun left right =>
      (Parent.region left).Apart (Parent.region right))
    (placed : forall block, block ∈ kept blocks waiting ->
      0 < block.1 ∧ block.1 + block.2.size < sizeRange ∧ Layout.isAlign block.2.align = true) :
    total blocks < sizeRange := by
  have some_ : 0 < guardSize ∧ guardSize < sizeRange := by decide
  have own := List.pairwise_map.mp (List.pairwise_append.mp apart).1
  have room := Region.total_le (fun block : BlockRecord => ⟨block.addr, block.layout.size⟩)
    (own.imp fun apart => apart.within (Region.within_of_le (Nat.le_add_right _ _))
      (Region.within_of_le (Nat.le_add_right _ _)))
    fun block inside => show block.addr + block.layout.size ≤ sizeRange - guardSize by
      have bound : block.addr + (block.layout.size + guardSize) < sizeRange :=
        (placed _ (mem_kept_block inside)).2.1
      omega
  exact Nat.lt_of_le_of_lt room (by omega)

namespace Invariant

variable (invariant : Invariant ⟨⟨debug, ⟨parent, default⟩⟩, blocks, serials, peak⟩ others)

include invariant

theorem kept_mem {block : Nat × Layout} (inside : block ∈ kept blocks debug.waiting) : block ∈ parent.out :=
  invariant.out.mem_iff.mpr (List.mem_append_left _ inside)

theorem block_placed (inside : entry ∈ blocks) : 0 < entry.addr ∧
    entry.addr + (entry.layout.size + guardSize) < sizeRange :=
  have placed := invariant.placed _ (mem_kept_block inside)
  ⟨placed.1, placed.2.1⟩

theorem total_lt : total blocks < sizeRange := total_lt_of invariant.apart invariant.placed

/-- Bytes are written where no block waits. -/
theorem rewritten {parent' : Parent} {default' : DefaultAl} (out : parent'.out = parent.out)
    (keeps : Bytes.Keeps parent.bytes parent'.bytes region)
    (apart : forall freed, freed ∈ debug.waiting -> forall addr,
      (Parent.region (guarded freed.ptr freed.layout)).Covers addr -> ¬ region.Covers addr) :
    Invariant ⟨⟨debug, ⟨parent', default'⟩⟩, blocks, serials, peak⟩ others where
  parent := invariant.parent
  breakAt := invariant.breakAt
  requests := invariant.requests
  table := invariant.table
  ring := invariant.ring
  out := by
    change parent'.out.Perm _
    rw [out]
    exact invariant.out
  apart := invariant.apart
  placed := invariant.placed
  made := invariant.made
  filled freed inside addr covers := (keeps addr (apart freed inside addr covers)).trans
    (invariant.filled freed inside addr covers)
  liveBytes := invariant.liveBytes
  peak := invariant.peak
  serials := invariant.serials
  counted := invariant.counted
  numbered := invariant.numbered

theorem requested (more : debug.requests + 1 < 2 ^ 64) :
    Invariant ⟨⟨{ debug with requests := debug.requests + 1 }, ⟨parent, default⟩⟩, blocks, serials, peak⟩
      others :=
  ⟨invariant.parent, invariant.breakAt, more, invariant.table, invariant.ring, invariant.out,
    invariant.apart, invariant.placed, invariant.made, invariant.filled, invariant.liveBytes,
    invariant.peak, invariant.serials,
    fun serial inside => Nat.le_succ_of_le (invariant.counted serial inside), invariant.numbered⟩

end Invariant

/-! ## The quarantine -/

/-- The oldest block goes back to the parent. -/
theorem ends_releaseOldest
    (invariant : Invariant ⟨⟨debug, ⟨parent, default⟩⟩, blocks, serials, peak⟩ others)
    (more : debug.quarantineLen = n + 1) {post : Verdict Unit -> Worlds Parent -> Prop}
    (done : forall later, Bytes.Keeps parent.bytes later.bytes
        (Parent.region (guarded (debug.quarantined 0).ptr (debug.quarantined 0).layout)) ->
      Invariant ⟨⟨{ debug with
        quarantineHead := (debug.quarantineHead + 1) % quarantineCap
        quarantineLen := n }, ⟨later, default⟩⟩, blocks, serials, peak⟩ others ->
      post (.ok ()) ⟨{ debug with
        quarantineHead := (debug.quarantineHead + 1) % quarantineCap
        quarantineLen := n }, ⟨later, default⟩⟩) :
    Ends releaseOldest ⟨debug, ⟨parent, default⟩⟩ post := by
  have parent_eq : debug.parent = some Parent.toAl := invariant.parent
  have split_ := waiting_pop more
  have oldest : debug.quarantined 0 ∈ debug.waiting := by
    rw [split_]
    exact List.mem_cons_self
  have kept_ : _ ∈ kept blocks debug.waiting := mem_kept_freed oldest
  rcases invariant.placed _ kept_ with ⟨_, room, isAlign⟩
  have fits : (debug.quarantined 0).layout.size + guardSize < sizeRange := by
    have bound : (debug.quarantined 0).ptr + ((debug.quarantined 0).layout.size + guardSize) < sizeRange := room
    omega
  have layout_eq := ckdParentLayout_eq fits
  have some_ : 0 < guardSize := by decide
  have intact : forall ctx : Debug Parent, allEqual (HasBytes.bytes (⟨ctx, ⟨parent, default⟩⟩ : Worlds Parent))
      (debug.quarantined 0).ptr ((debug.quarantined 0).layout.size + guardSize) fillFreed = true :=
    fun _ => allEqual_iff.mpr (invariant.filled _ oldest)
  have positive : 0 < debug.quarantineLen := by omega
  have len : debug.quarantineLen - 1 = n := by omega
  simp only [releaseOldest, assertDebug, ends_bind, World.ends_self, parent_eq, ends_demand_some,
    ends_require, positive, true_and, World.ends_setSelf, parentLayout, layout_eq, Run.ends_get]
  rw [if_pos (intact _)]
  simp only [ends_bind, ends_onParent, ends_pure]
  have isOut : guarded (debug.quarantined 0).ptr (debug.quarantined 0).layout ∈ parent.out :=
    invariant.kept_mem kept_
  apply Parent.ends_deallocate isAlign (Nat.add_pos_right _ some_) isOut
  intro later out keeps
  rw [len, ← parent_eq]
  apply done later keeps
  -- the block was the first of those that wait
  have perm : (kept blocks debug.waiting).Perm
      (guarded (debug.quarantined 0).ptr (debug.quarantined 0).layout ::
        kept blocks (waiting { debug with
          quarantineHead := (debug.quarantineHead + 1) % quarantineCap
          quarantineLen := n })) := by
    unfold kept
    rw [split_, List.map_cons]
    exact List.perm_middle
  have apart := perm.pairwise invariant.apart fun apart => Region.Apart.symm apart
  rw [List.pairwise_cons] at apart
  have remaining : forall block, block ∈ kept blocks (waiting { debug with
      quarantineHead := (debug.quarantineHead + 1) % quarantineCap
      quarantineLen := n }) -> block ∈ kept blocks debug.waiting :=
    fun block inside => perm.mem_iff.mpr (List.mem_cons_of_mem _ inside)
  refine ⟨invariant.parent, invariant.breakAt, invariant.requests, invariant.table, ?_, ?_, apart.2,
    fun block inside => invariant.placed block (remaining block inside), invariant.made, ?_,
    invariant.liveBytes, invariant.peak, invariant.serials, invariant.counted, invariant.numbered⟩
  · have ring : debug.quarantineLen ≤ quarantineCap := invariant.ring
    change n ≤ quarantineCap
    omega
  · change later.out.Perm _
    have erased := (invariant.out.trans (perm.append_right others)).erase
      (guarded (debug.quarantined 0).ptr (debug.quarantined 0).layout)
    rw [List.cons_append, List.erase_cons_head] at erased
    rw [out]
    exact erased
  · intro freed inside addr covers
    have before : freed ∈ debug.waiting := by
      rw [split_]
      exact List.mem_cons_of_mem _ inside
    have away := apart.1 _ (mem_kept_freed inside)
    exact (keeps addr (away.symm.not_covers covers)).trans (invariant.filled freed before addr covers)

/-- A block that was given back is held as the newest. -/
theorem Invariant.pushed
    (invariant : Invariant ⟨⟨debug, ⟨parent, default⟩⟩, blocks, serials, peak⟩
      (guarded freed.ptr freed.layout :: others))
    (room : debug.quarantineLen < quarantineCap)
    (apart : forall block, block ∈ kept blocks debug.waiting ->
      (Parent.region (guarded freed.ptr freed.layout)).Apart (Parent.region block))
    (placed : 0 < freed.ptr ∧ freed.ptr + (freed.layout.size + guardSize) < sizeRange ∧
      Layout.isAlign freed.layout.align = true)
    (filled : forall addr, (Parent.region (guarded freed.ptr freed.layout)).Covers addr ->
      parent.bytes addr = fillFreed) :
    Invariant ⟨⟨{ debug with
      quarantineLen := debug.quarantineLen + 1
      quarantine := Function.update debug.quarantine
        ((debug.quarantineHead + (debug.quarantineLen + 1 - 1)) % quarantineCap) freed },
      ⟨parent, default⟩⟩, blocks, serials, peak⟩ others := by
  have split_ : waiting (DebugProgram.debug ⟨⟨_, ⟨parent, default⟩⟩, blocks, serials, peak⟩) =
      debug.waiting ++ [freed] := waiting_push room
  have perm : (guarded freed.ptr freed.layout :: kept blocks debug.waiting).Perm
      (kept blocks (debug.waiting ++ [freed])) := by
    unfold kept
    rw [List.map_append, List.map_singleton, ← List.append_assoc]
    exact (List.perm_append_singleton _ _).symm
  refine ⟨invariant.parent, invariant.breakAt, invariant.requests, invariant.table, room, ?_, ?_, ?_,
    invariant.made, ?_, invariant.liveBytes, invariant.peak, invariant.serials, invariant.counted,
    invariant.numbered⟩
  · rw [split_]
    refine (invariant.out.trans List.perm_middle).trans ?_
    exact perm.append_right others
  · rw [split_]
    exact perm.pairwise (List.pairwise_cons.mpr ⟨apart, invariant.apart⟩) fun apart =>
      Region.Apart.symm apart
  · intro block inside
    rw [split_] at inside
    rcases List.mem_cons.mp (perm.mem_iff.mpr inside) with rfl | before
    · exact placed
    · exact invariant.placed block before
  · intro other inside addr covers
    rw [split_] at inside
    rcases List.mem_append.mp inside with before | new
    · exact invariant.filled other before addr covers
    · cases List.mem_singleton.mp new
      exact filled addr covers

/-- A block that was given back is held, the oldest one making room for it. -/
theorem ends_quarantinePush
    (invariant : Invariant ⟨⟨debug, ⟨parent, default⟩⟩, blocks, serials, peak⟩
      (guarded freed.ptr freed.layout :: others))
    (apart : forall block, block ∈ kept blocks debug.waiting ->
      (Parent.region (guarded freed.ptr freed.layout)).Apart (Parent.region block))
    (placed : 0 < freed.ptr ∧ freed.ptr + (freed.layout.size + guardSize) < sizeRange ∧
      Layout.isAlign freed.layout.align = true)
    (filled : forall addr, (Parent.region (guarded freed.ptr freed.layout)).Covers addr ->
      parent.bytes addr = fillFreed)
    {post : Verdict Unit -> Worlds Parent -> Prop}
    (done : forall world, world.ctx.requests = debug.requests ->
      Invariant ⟨world, blocks, serials, peak⟩ others -> post (.ok ()) world) :
    Ends (quarantinePush freed) ⟨debug, ⟨parent, default⟩⟩ post := by
  have ring : debug.quarantineLen ≤ quarantineCap := invariant.ring
  simp only [quarantinePush, ends_bind, World.ends_self]
  by_cases full : debug.quarantineLen = quarantineCap
  · have more : debug.quarantineLen = 63 + 1 := full
    have split_ := waiting_pop more
    rw [if_pos full]
    simp only [ends_bind]
    apply ends_releaseOldest invariant more
    intro later keeps released
    simp only [pushNewest, ends_bind, World.ends_self, World.ends_setSelf, ends_pure]
    have oldest : debug.quarantined 0 ∈ debug.waiting := by
      rw [split_]
      exact List.mem_cons_self
    apply done _ rfl
    refine released.pushed (show 63 < quarantineCap by decide) ?_ placed ?_
    · intro block inside
      apply apart
      unfold kept at inside ⊢
      rw [split_]
      rcases List.mem_append.mp inside with held | waits
      · exact List.mem_append_left _ held
      · rw [List.map_cons]
        exact List.mem_append_right _ (List.mem_cons_of_mem _ waits)
    · intro addr covers
      have away := apart _ (mem_kept_freed oldest)
      exact (keeps addr (away.not_covers covers)).trans (filled addr covers)
  · rw [if_neg full]
    simp only [pushNewest, ends_bind, World.ends_self, World.ends_setSelf, ends_pure]
    exact done _ rfl (invariant.pushed (Nat.lt_of_le_of_ne ring full) apart placed filled)

/-! ## The check -/

/-- The block is held, with that layout. -/
def Live (blocks : List BlockRecord) (ptr : Nat) (layout : Layout) : Prop :=
  exists entry, entry ∈ blocks ∧ entry.addr = ptr ∧ entry.layout = layout

/-- The guard behind a block is as it was made. -/
def Intact (bytes : Bytes) (ptr : Nat) (layout : Layout) : Prop :=
  forall addr, Region.Covers ⟨ptr + layout.size, guardSize⟩ addr -> bytes addr = fillGuard

/-- The end of `checked_entry`, once the record was looked for. -/
theorem entry_eq (distinct : (blocks.map BlockRecord.addr).Nodup) {other : BlockRecord}
    (inside : entry ∈ blocks) (also : other ∈ blocks) (same : entry.addr = other.addr) : entry = other :=
  List.inj_on_of_nodup_map distinct inside also same

/-- A record is taken out of the table exactly if the block is held with that layout. -/
theorem ends_checkedEntry_take
    (invariant : Invariant ⟨⟨debug, ⟨parent, default⟩⟩, blocks, serials, peak⟩ others)
    {as_ : String} {post : Verdict BlockRecord -> Worlds Parent -> Prop}
    (wrong : ¬ Live blocks ptr layout -> forall report world, post (.error report) world)
    (right : forall entry after, entry ∈ blocks -> entry.addr = ptr -> entry.layout = layout ->
      after.Holds (blocks.erase entry) ->
      post (.ok entry) ⟨{ debug with table := after }, ⟨parent, default⟩⟩) :
    Ends (checkedEntry ptr layout true as_) ⟨debug, ⟨parent, default⟩⟩ post := by
  have table : debug.table.Holds blocks := invariant.table
  simp only [checkedEntry, ends_bind, World.ends_self, if_true]
  apply table.ends_take
  · intro absent
    have not_ : ¬ Live blocks ptr layout := by
      rintro ⟨entry, inside, same, _⟩
      exact absent entry inside same
    simp only [World.ends_setSelf]
    cases debug.quarantineFind ptr <;> simp only [ends_pure] <;> exact wrong not_ _ _
  · intro entry after inside same holds
    simp only [World.ends_setSelf]
    by_cases made : entry.layout = layout
    · simp only [if_pos made, ends_pure]
      exact right entry after inside same made holds
    · simp only [if_neg made, ends_pure]
      refine wrong ?_ _ _
      rintro ⟨other, there, equal, layout_eq⟩
      have one := entry_eq table.distinct inside there (same.trans equal.symm)
      exact made (one ▸ layout_eq)

/-- A record is found exactly if the block is held with that layout. -/
theorem ends_checkedEntry_find
    (invariant : Invariant ⟨⟨debug, ⟨parent, default⟩⟩, blocks, serials, peak⟩ others)
    {as_ : String} {post : Verdict BlockRecord -> Worlds Parent -> Prop}
    (wrong : ¬ Live blocks ptr layout -> forall report world, post (.error report) world)
    (right : Live blocks ptr layout -> forall entry, post (.ok entry) ⟨debug, ⟨parent, default⟩⟩) :
    Ends (checkedEntry ptr layout false as_) ⟨debug, ⟨parent, default⟩⟩ post := by
  have table : debug.table.Holds blocks := invariant.table
  simp only [checkedEntry, ends_bind, World.ends_self, Bool.false_eq_true, if_false]
  apply table.ends_find
  · intro entry inside same
    simp only [ends_pure, World.ends_setSelf]
    by_cases made : entry.layout = layout
    · simp only [if_pos made, ends_pure]
      exact right ⟨entry, inside, same, made⟩ entry
    · simp only [if_neg made, ends_pure]
      refine wrong ?_ _ _
      rintro ⟨other, there, equal, layout_eq⟩
      have one := entry_eq table.distinct inside there (same.trans equal.symm)
      exact made (one ▸ layout_eq)
  · intro absent
    have not_ : ¬ Live blocks ptr layout := by
      rintro ⟨entry, inside, same, _⟩
      exact absent entry inside same
    simp only [ends_pure, World.ends_setSelf]
    cases debug.quarantineFind ptr <;> simp only [ends_pure] <;> exact wrong not_ _ _

/-- A remap passes exactly if the block is held with that layout, and then changes nothing. -/
theorem ends_remap (invariant : Invariant ⟨⟨debug, ⟨parent, default⟩⟩, blocks, serials, peak⟩ others)
    (some_ : 0 < layout.size) (wanted : 0 < newSize)
    {post : Verdict (Option Addr) -> Worlds Parent -> Prop}
    (wrong : ¬ Live blocks ptr layout -> forall report world, post (.error report) world)
    (right : Live blocks ptr layout -> post (.ok none) ⟨debug, ⟨parent, default⟩⟩) :
    Ends (Debug.remap ptr layout newSize) ⟨debug, ⟨parent, default⟩⟩ post := by
  have parent_eq : debug.parent = some Parent.toAl := invariant.parent
  simp only [Debug.remap, assertDebug, ends_bind, World.ends_self, parent_eq, ends_demand_some,
    ends_require, some_, wanted, and_self, true_and]
  apply ends_checkedEntry_find invariant
  · intro not_ report world
    simp only [ends_pure]
    exact wrong not_ report world
  · intro live entry
    simp only [ends_pure]
    exact right live

/-! ## Giving back -/

theorem total_erase (inside : entry ∈ blocks) :
    total blocks = entry.layout.size + total (blocks.erase entry) := by
  have perm := (List.perm_cons_erase inside).map fun block => block.layout.size
  unfold total
  rw [perm.sum_nat, List.map_cons, List.sum_cons]

theorem kept_erase {waiting : List FreedBlock} (inside : entry ∈ blocks) : (kept blocks waiting).Perm
    (guarded entry.addr entry.layout :: kept (blocks.erase entry) waiting) :=
  ((List.perm_cons_erase inside).map _).append_right _

/-- A block is no longer held; it is still out at the parent's. -/
theorem Invariant.dropped
    (invariant : Invariant ⟨⟨debug, ⟨parent, default⟩⟩, blocks, serials, peak⟩ others)
    (inside : entry ∈ blocks) {after : BlockTable} (holds : after.Holds (blocks.erase entry)) :
    Invariant ⟨⟨{ debug with table := after, liveBytes := wrapSub debug.liveBytes entry.layout.size },
      ⟨parent, default⟩⟩, blocks.erase entry, serials, peak⟩ (guarded entry.addr entry.layout :: others) where
  parent := invariant.parent
  breakAt := invariant.breakAt
  requests := invariant.requests
  table := holds
  ring := invariant.ring
  out := (invariant.out.trans ((kept_erase inside).append_right others)).trans List.perm_middle.symm
  apart := (List.pairwise_cons.mp ((kept_erase inside).pairwise invariant.apart
    fun apart => Region.Apart.symm apart)).2
  placed block member :=
    invariant.placed block ((kept_erase inside).mem_iff.mpr (List.mem_cons_of_mem _ member))
  made block member := invariant.made block (List.mem_of_mem_erase member)
  filled := invariant.filled
  liveBytes := by
    have before : debug.liveBytes = total blocks := invariant.liveBytes
    have small := invariant.total_lt
    change wrapSub debug.liveBytes entry.layout.size = total (blocks.erase entry)
    rw [before, wrapSub_eq small (by rw [total_erase inside]; exact Nat.le_add_right _ _),
      total_erase inside, Nat.add_sub_cancel_left]
  peak := invariant.peak
  serials := invariant.serials
  counted := invariant.counted
  numbered block member := invariant.numbered block (List.mem_of_mem_erase member)

/-- A block goes into the quarantine exactly if it is held, with that layout and an
intact guard. -/
theorem ends_dealloc (invariant : Invariant ⟨⟨debug, ⟨parent, default⟩⟩, blocks, serials, peak⟩ others)
    (real : ptr ≠ 0) {post : Verdict Unit -> Worlds Parent -> Prop}
    (wrong : ¬ (Live blocks ptr layout ∧ Intact parent.bytes ptr layout) ->
      forall report world, post (.error report) world)
    (right : forall entry world, entry ∈ blocks -> entry.addr = ptr -> entry.layout = layout ->
      Intact parent.bytes ptr layout -> world.ctx.requests = debug.requests ->
      Invariant ⟨world, blocks.erase entry, serials, peak⟩ others -> post (.ok ()) world) :
    Ends (Debug.dealloc ptr layout) ⟨debug, ⟨parent, default⟩⟩ post := by
  have parent_eq : debug.parent = some Parent.toAl := invariant.parent
  simp only [Debug.dealloc, assertDebug, ends_bind, World.ends_self, parent_eq, ends_demand_some]
  apply ends_checkedEntry_take invariant
  · intro not_ report world
    simp only [ends_pure]
    exact wrong (fun both => not_ both.1) report world
  · intro entry after inside same made holds
    subst same
    subst made
    have guard_iff : forall ctx : Debug Parent,
        allEqual (HasBytes.bytes (⟨ctx, ⟨parent, default⟩⟩ : Worlds Parent)) (entry.addr + entry.layout.size)
          guardSize fillGuard = true <-> Intact parent.bytes entry.addr entry.layout :=
      fun _ => allEqual_iff
    simp only [ends_bind, Run.ends_get]
    by_cases intact : Intact parent.bytes entry.addr entry.layout
    · rw [if_pos ((guard_iff _).mpr intact)]
      rcases invariant.placed _ (mem_kept_block inside) with ⟨positive, room, isAlign⟩
      have bound := (invariant.block_placed inside).2
      have layout_eq := ckdParentLayout_eq (show entry.layout.size + guardSize < sizeRange by omega)
      have apart := (List.pairwise_cons.mp ((kept_erase inside).pairwise invariant.apart
        fun apart => Region.Apart.symm apart)).1
      simp only [ends_bind, World.ends_self, World.ends_setSelf, parentLayout, layout_eq,
        ends_demand_some, setBytes, ends_modify]
      have keeps : Bytes.Keeps parent.bytes
          (parent.bytes.fill entry.addr (entry.layout.size + guardSize) fillFreed)
          (Parent.region (guarded entry.addr entry.layout)) := Bytes.keeps_overwrite _ _ _
      have dropped : Invariant ⟨⟨_, ⟨{ parent with
            bytes := parent.bytes.fill entry.addr (entry.layout.size + guardSize) fillFreed }, default⟩⟩,
          blocks.erase entry, serials, peak⟩ (guarded entry.addr entry.layout :: others) :=
        (invariant.dropped inside holds).rewritten rfl keeps fun freed waits addr covers =>
          (apart _ (mem_kept_freed waits)).symm.not_covers covers
      apply ends_quarantinePush dropped apart ⟨positive, room, isAlign⟩
      · exact fun addr covers => if_pos covers
      · exact fun world same pushed => right entry world inside rfl rfl intact same pushed
    · rw [if_neg fun equal => intact ((guard_iff _).mp equal)]
      simp only [ends_pure]
      exact wrong (fun both => intact both.2) _ _

/-! ## Handing out -/

/-- A new block is held, under the number of the last request. -/
theorem Invariant.entered
    (invariant : Invariant ⟨⟨debug, ⟨parent, default⟩⟩, blocks, serials, peak⟩ others)
    (asked : layout.Asked) (some_ : 0 < layout.size)
    (new : forall serial, serial ∈ serials -> serial < debug.requests)
    (honest : Parent.Honest parent.out ptr ⟨layout.size + guardSize, layout.align⟩)
    {after : BlockTable} (holds : after.Holds (⟨ptr, layout, debug.requests⟩ :: blocks))
    (out : later.out = guarded ptr layout :: parent.out) {default' : DefaultAl}
    (keeps : Bytes.Keeps parent.bytes later.bytes (Parent.region (guarded ptr layout))) :
    Invariant ⟨⟨{ debug with
        table := after
        liveBytes := wrapAdd debug.liveBytes layout.size
        peakBytes := if wrapAdd debug.liveBytes layout.size > debug.peakBytes then
          wrapAdd debug.liveBytes layout.size else debug.peakBytes }, ⟨later, default'⟩⟩,
      ⟨ptr, layout, debug.requests⟩ :: blocks, debug.requests :: serials,
      max peak (total (⟨ptr, layout, debug.requests⟩ :: blocks))⟩ others := by
  have before : debug.liveBytes = total blocks := invariant.liveBytes
  have top : debug.peakBytes = peak := invariant.peak
  have apart : forall block, block ∈ kept blocks debug.waiting ->
      (Parent.region (guarded ptr layout)).Apart (Parent.region block) :=
    fun block inside => honest.apart block (invariant.kept_mem inside)
  have apart' : (kept (⟨ptr, layout, debug.requests⟩ :: blocks) debug.waiting).Pairwise fun left right =>
      (Parent.region left).Apart (Parent.region right) :=
    List.pairwise_cons.mpr ⟨apart, invariant.apart⟩
  have placed' : forall block, block ∈ kept (⟨ptr, layout, debug.requests⟩ :: blocks) debug.waiting ->
      0 < block.1 ∧ block.1 + block.2.size < sizeRange ∧ Layout.isAlign block.2.align = true := by
    intro block inside
    rcases List.mem_cons.mp inside with rfl | old
    · exact ⟨honest.real, honest.room, asked.isAlign⟩
    · exact invariant.placed block old
  have more : total (⟨ptr, layout, debug.requests⟩ :: blocks) = layout.size + total blocks :=
    List.sum_cons
  -- the sum of the sizes does not wrap, because the blocks lie apart
  have fits := total_lt_of apart' placed'
  rw [more, Nat.add_comm] at fits
  have sum : wrapAdd debug.liveBytes layout.size = total (⟨ptr, layout, debug.requests⟩ :: blocks) := by
    rw [before, wrapAdd_eq fits, more, Nat.add_comm]
  refine ⟨invariant.parent, invariant.breakAt, invariant.requests, holds, invariant.ring, ?_, apart',
    placed', ?_, ?_, sum, ?_, ?_, ?_, ?_⟩
  · change later.out.Perm _
    rw [out]
    exact invariant.out.cons _
  · intro block inside
    rcases List.mem_cons.mp inside with rfl | old
    · exact ⟨asked, some_⟩
    · exact invariant.made block old
  · intro freed inside addr covers
    exact (keeps addr ((apart _ (mem_kept_freed inside)).symm.not_covers covers)).trans
      (invariant.filled freed inside addr covers)
  · change (if wrapAdd debug.liveBytes layout.size > debug.peakBytes then _ else _) = max peak _
    rw [sum, top]
    split <;> omega
  · exact List.pairwise_cons.mpr ⟨new, invariant.serials⟩
  · intro serial inside
    rcases List.mem_cons.mp inside with rfl | old
    · exact Nat.le_refl _
    · exact invariant.counted serial old
  · intro block inside
    rcases List.mem_cons.mp inside with rfl | old
    · exact List.mem_cons_self
    · exact List.mem_cons_of_mem _ (invariant.numbered block old)

/-- A block that the parent handed out is held from now on, or the table could not
grow and the parent has the block back. -/
theorem ends_record (invariant : Invariant ⟨⟨debug, ⟨parent, default⟩⟩, blocks, serials, peak⟩ others)
    (asked : layout.Asked) (some_ : 0 < layout.size)
    (new : forall serial, serial ∈ serials -> serial < debug.requests)
    (honest : Parent.Honest parent.out ptr ⟨layout.size + guardSize, layout.align⟩)
    {middle : Parent} (out : middle.out = guarded ptr layout :: parent.out)
    (keeps : Bytes.Keeps parent.bytes middle.bytes (Parent.region (guarded ptr layout)))
    {post : Verdict (Option Addr) -> Worlds Parent -> Prop}
    (refused : forall later default, Invariant ⟨⟨debug, ⟨later, default⟩⟩, blocks, serials, peak⟩ others ->
      post (.ok none) ⟨debug, ⟨later, default⟩⟩)
    (granted : forall world, world.ctx.requests = debug.requests ->
      Bytes.Keeps parent.bytes world.below.below.bytes (Parent.region (guarded ptr layout)) ->
      Invariant ⟨world, ⟨ptr, layout, debug.requests⟩ :: blocks, debug.requests :: serials,
        max peak (total (⟨ptr, layout, debug.requests⟩ :: blocks))⟩ others -> post (.ok (some ptr)) world) :
    Ends (record Parent.toAl ptr layout ⟨layout.size + guardSize, layout.align⟩ debug.requests)
      ⟨debug, ⟨middle, default⟩⟩ post := by
  have table : debug.table.Holds blocks := invariant.table
  have guard : 0 < guardSize := by decide
  have real : ptr ≠ 0 := Nat.ne_of_gt honest.real
  have apart : forall block, block ∈ kept blocks debug.waiting ->
      (Parent.region (guarded ptr layout)).Apart (Parent.region block) :=
    fun block inside => honest.apart block (invariant.kept_mem inside)
  -- no block that is held or waits starts where the new one does
  have other : forall block : Nat × Layout, block ∈ kept blocks debug.waiting -> guardSize ≤ block.2.size ->
      block.1 ≠ ptr := by
    intro block inside sized same
    have away := apart block inside
    unfold Region.Apart Region.stop Parent.region guarded at away
    dsimp only at away
    omega
  have fresh : forall entry, entry ∈ blocks -> entry.addr ≠ ptr :=
    fun entry inside => other _ (mem_kept_block inside) (Nat.le_add_left _ _)
  have nowhere : debug.quarantineFind ptr = none := by
    unfold quarantineFind
    rw [List.find?_eq_none]
    intro freed inside
    rw [beq_iff_eq]
    exact other _ (mem_kept_freed inside) (Nat.le_add_left _ _)
  simp only [record, ends_bind, World.ends_self]
  apply table.ends_find
  · exact fun entry inside same => absurd same (fresh entry inside)
  · intro _
    simp only [nowhere, ends_bind, ends_onDefault]
    apply table.ends_insert real fresh
    · intro default
      simp only [World.ends_setSelf, Bool.false_eq_true, if_false, ends_bind, ends_onParent, ends_pure]
      have isOut : guarded ptr layout ∈ middle.out := by
        rw [out]
        exact List.mem_cons_self
      have isAlign : Layout.isAlign (guarded ptr layout).2.align = true := asked.isAlign
      apply Parent.ends_deallocate isAlign (Nat.add_pos_right _ guard) isOut
      intro later back gone
      have same : later.out = parent.out := by
        rw [back, out]
        exact List.erase_cons_head (guarded ptr layout) parent.out
      have whole : Bytes.Keeps parent.bytes later.bytes (Parent.region (guarded ptr layout)) :=
        fun addr outside => (gone addr outside).trans (keeps addr outside)
      exact refused later default (invariant.rewritten same whole fun freed waits addr covers =>
        (apart _ (mem_kept_freed waits)).symm.not_covers covers)
    · intro after default holds
      simp only [World.ends_setSelf, if_true, ends_bind, setBytes, ends_modify, ends_pure]
      let later : Parent := { middle with
        bytes := (middle.bytes.fill ptr layout.size fillNew).fill (ptr + layout.size) guardSize fillGuard }
      have filled : Bytes.Keeps parent.bytes later.bytes (Parent.region (guarded ptr layout)) := by
        intro addr outside
        have first : ¬ Region.Covers ⟨ptr, layout.size⟩ addr := by
          unfold Region.Covers Region.stop Parent.region guarded at outside
          unfold Region.Covers Region.stop
          dsimp only at outside ⊢
          omega
        have second : ¬ Region.Covers ⟨ptr + layout.size, guardSize⟩ addr := by
          unfold Region.Covers Region.stop Parent.region guarded at outside
          unfold Region.Covers Region.stop
          dsimp only at outside ⊢
          omega
        exact ((if_neg second).trans (if_neg first)).trans (keeps addr outside)
      have handed : later.out = guarded ptr layout :: parent.out := out
      exact granted _ rfl filled (invariant.entered asked some_ new honest holds handed filled)

/-- A request that is not the `2 ^ 64`th is answered with a block or refused. -/
theorem ends_alloc (invariant : Invariant ⟨⟨debug, ⟨parent, default⟩⟩, blocks, serials, peak⟩ others)
    (more : debug.requests + 1 < 2 ^ 64) (asked : layout.Asked) (some_ : 0 < layout.size)
    {post : Verdict (Option Addr) -> Worlds Parent -> Prop}
    (refused : forall world, world.ctx.requests = debug.requests + 1 ->
      Invariant ⟨world, blocks, serials, peak⟩ others -> post (.ok none) world)
    (granted : forall addr world, world.ctx.requests = debug.requests + 1 -> layout.align ∣ addr ->
      Bytes.Keeps parent.bytes world.below.below.bytes (Parent.region (guarded addr layout)) ->
      Invariant ⟨world, ⟨addr, layout, debug.requests + 1⟩ :: blocks, (debug.requests + 1) :: serials,
        max peak (total (⟨addr, layout, debug.requests + 1⟩ :: blocks))⟩ others ->
      post (.ok (some addr)) world) :
    Ends (Debug.alloc layout) ⟨debug, ⟨parent, default⟩⟩ post := by
  have parent_eq : debug.parent = some Parent.toAl := invariant.parent
  have notBreak : ¬ debug.requests + 1 = debug.breakAt := by
    have off : debug.breakAt = 0 := invariant.breakAt
    omega
  have serial_eq : (debug.requests + 1) % 2 ^ 64 = debug.requests + 1 := Nat.mod_eq_of_lt more
  have requested := invariant.requested more
  have new : forall serial, serial ∈ serials -> serial < debug.requests + 1 :=
    fun serial inside => Nat.lt_succ_of_le (invariant.counted serial inside)
  simp only [Debug.alloc, assertDebug, ends_bind, World.ends_self, parent_eq, ends_demand_some,
    ends_require, some_, true_and, nextSerial, World.ends_setSelf, serial_eq, if_neg notBreak]
  rw [← parent_eq]
  by_cases stopped : debug.requests + 1 > debug.failAfter
  · simp only [if_pos stopped, ends_pure, if_true]
    exact refused _ rfl requested
  · simp only [if_neg stopped, ends_pure, Nat.succ_ne_zero, if_false]
    cases fits : ckdParentLayout layout with
    | none =>
        simp only [ends_pure]
        exact refused _ rfl requested
    | some withGuard =>
        have guard_eq : withGuard = ⟨layout.size + guardSize, layout.align⟩ ∧
            layout.size + guardSize < sizeRange := by
          unfold ckdParentLayout ckdAdd at fits
          split at fits
          · cases fits
            rename_i within
            exact ⟨rfl, within⟩
          · cases fits
        rcases guard_eq with ⟨rfl, within⟩
        have withGuard : Layout.Asked ⟨layout.size + guardSize, layout.align⟩ :=
          ⟨asked.isAlign, within, asked.align⟩
        simp only [ends_bind, ends_onParent]
        apply Parent.ends_allocate withGuard
        · intro later same
          simp only [ends_pure]
          have keeps : Bytes.Keeps parent.bytes later.bytes ⟨0, 0⟩ := fun addr _ => by rw [same.bytes]
          refine refused _ rfl (requested.rewritten same.out keeps ?_)
          exact fun _ _ addr _ covers => absurd covers.2 (Nat.not_lt_zero addr)
        · intro _ addr middle honest out keeps
          apply ends_record requested asked some_ new honest out keeps
          · exact fun later default held => refused _ rfl held
          · exact fun world same keeps held => granted addr world same honest.aligned keeps held

end DebugProgram
end TerseDsa
