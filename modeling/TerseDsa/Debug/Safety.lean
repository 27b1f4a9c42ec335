import TerseDsa.Debug.Hooks

namespace TerseDsa

open Foundation Run AlVtable

/-!
# The debug allocator over whole runs

Whatever a program asks for and gives back, the table has the blocks that are
held, and a block that comes back or is resized passes exactly if it is one of
them, under the layout it was made with.
-/

namespace DebugProgram

open Debug

variable {program : DebugProgram} {debug : Debug Parent} {parent : Parent} {default : DefaultAl}
  {blocks : List BlockRecord} {serials : List Nat} {peak ptr newSize : Nat}
  {others : List (Nat × Layout)} {entry : BlockRecord} {layout old : Layout}

theorem ends_call {α : Type} {run : Run (Worlds Parent) α} {post : α -> DebugProgram -> Prop} :
    Ends (call run) program post <->
      Ends run program.world fun a world => post a { program with world := world } :=
  ends_zoom

theorem allows_call {α : Type} {run : Run (Worlds Parent) α} {post : α -> DebugProgram -> Prop} :
    Allows (call run) program post <->
      Allows run program.world fun a world => post a { program with world := world } :=
  allows_zoom

theorem allows_orAbort {α : Type} {run : Run (Worlds Parent) (Verdict α)} {world : Worlds Parent}
    {post : α -> Worlds Parent -> Prop} :
    Allows (orAbort run) world post <->
      Allows run world fun verdict later => forall a, verdict = .ok a -> post a later := by
  simp only [orAbort, allows_bind]
  constructor
  · refine fun allows => allows.mono ?_
    rintro _ later after a rfl
    exact (allows_pure _ _ _).mp after
  · refine fun allows => allows.mono ?_
    intro verdict later after
    cases verdict with
    | ok a => exact (allows_pure _ _ _).mpr (after a rfl)
    | error report => exact fun a t impossible => nomatch impossible

/-! ## Wrappers -/

/-- A block is handed out, or a request was refused; nothing is reported. -/
theorem ends_allocate (invariant : Invariant ⟨⟨debug, ⟨parent, default⟩⟩, blocks, serials, peak⟩ others)
    (more : 0 < layout.size -> debug.requests + 1 < 2 ^ 64) (asked : layout.Asked)
    {post : Option Addr -> Worlds Parent -> Prop}
    (refused : forall world, Invariant ⟨world, blocks, serials, peak⟩ others ->
      (0 < layout.size -> world.ctx.requests = debug.requests + 1) -> post none world)
    (granted : forall addr world, world.ctx.requests = debug.requests + 1 ->
      Bytes.Keeps parent.bytes world.below.below.bytes (Parent.region (guarded addr layout)) ->
      Invariant ⟨world, ⟨addr, layout, debug.requests + 1⟩ :: blocks, (debug.requests + 1) :: serials,
        max peak (total (⟨addr, layout, debug.requests + 1⟩ :: blocks))⟩ others ->
      post (some addr) world) :
    Ends (allocate Act.al layout) ⟨debug, ⟨parent, default⟩⟩ post := by
  apply AlVtable.ends_allocate asked
  · exact fun empty => refused _ invariant fun some_ => absurd empty (Nat.ne_of_gt some_)
  · intro some_
    refine ends_orAbort.mpr ?_
    apply ends_alloc invariant (more some_) asked some_
    · intro world requests held
      exact ⟨none, rfl, fun _ impossible => (by cases impossible), refused world held fun _ => requests⟩
    · intro addr world requests aligned keeps held
      refine ⟨some addr, rfl, ?_, granted addr world requests keeps held⟩
      intro other same
      cases same
      exact aligned

/-- The block that is given back is the one at its address. -/
theorem erase_eq (distinct : (blocks.map BlockRecord.addr).Nodup) (inside : entry ∈ blocks) :
    blocks.erase entry = blocks.eraseP fun block => block.addr == entry.addr := by
  induction blocks with
  | nil => exact absurd inside List.not_mem_nil
  | cons first rest ih =>
      rw [List.map_cons, List.nodup_cons] at distinct
      by_cases same : first = entry
      · subst same
        rw [List.erase_cons_head, List.eraseP_cons_of_pos]
        exact beq_self_eq_true _
      · have there := List.mem_of_ne_of_mem (Ne.symm same) inside
        have different : first.addr ≠ entry.addr :=
          fun equal => distinct.1 (equal ▸ List.mem_map_of_mem there)
        rw [List.erase_cons_tail (fun equal => same (beq_iff_eq.mp equal)), List.eraseP_cons_of_neg,
          ih distinct.2 there]
        exact fun equal => different (beq_iff_eq.mp equal)

/-- What giving a block back comes to. -/
theorem ends_dealloc_verdict
    (invariant : Invariant ⟨⟨debug, ⟨parent, default⟩⟩, blocks, serials, peak⟩ others) (real : ptr ≠ 0) :
    Ends (Debug.dealloc ptr layout) ⟨debug, ⟨parent, default⟩⟩ fun verdict world =>
      (verdict = .ok () <-> Live blocks ptr layout ∧ Intact parent.bytes ptr layout) ∧
      (verdict = .ok () -> world.ctx.requests = debug.requests ∧ Invariant
        ⟨world, blocks.eraseP fun block => block.addr == ptr, serials, peak⟩ others) := by
  apply ends_dealloc invariant real
  · intro not_ report world
    exact ⟨⟨fun impossible => (by cases impossible), fun both => absurd both not_⟩,
      fun impossible => (by cases impossible)⟩
  · rintro entry world inside rfl rfl intact requests held
    rw [erase_eq invariant.table.distinct inside] at held
    exact ⟨⟨fun _ => ⟨⟨entry, inside, rfl, rfl⟩, intact⟩, fun _ => rfl⟩, fun _ => ⟨requests, held⟩⟩

/-- What the check of a remap comes to. -/
theorem ends_remap_verdict
    (invariant : Invariant ⟨⟨debug, ⟨parent, default⟩⟩, blocks, serials, peak⟩ others)
    (some_ : 0 < layout.size) (wanted : 0 < newSize) :
    Ends (Debug.remap ptr layout newSize) ⟨debug, ⟨parent, default⟩⟩ fun verdict world =>
      (verdict = .ok none <-> Live blocks ptr layout) ∧
      (forall moved, verdict = .ok moved -> moved = none ∧ world = ⟨debug, ⟨parent, default⟩⟩) := by
  apply ends_remap invariant some_ wanted
  · intro not_ report world
    exact ⟨⟨fun impossible => (by cases impossible), fun live => absurd live not_⟩,
      fun _ impossible => (by cases impossible)⟩
  · intro live
    refine ⟨⟨fun _ => live, fun _ => rfl⟩, ?_⟩
    intro moved same
    cases same
    exact ⟨rfl, rfl⟩

/-- If a block could be given back, then it is held no more. -/
theorem allows_deallocate
    (invariant : Invariant ⟨⟨debug, ⟨parent, default⟩⟩, blocks, serials, peak⟩ others) (real : ptr ≠ 0)
    {post : Unit -> Worlds Parent -> Prop}
    (done : forall world, world.ctx.requests = debug.requests -> Invariant
      ⟨world, blocks.eraseP fun block => block.addr == ptr, serials, peak⟩ others -> post () world) :
    Allows (deallocate Act.al (some ptr) layout) ⟨debug, ⟨parent, default⟩⟩ post := by
  simp only [deallocate, allows_bind, allows_require]
  intro _ _
  refine allows_orAbort.mpr ((ends_dealloc_verdict invariant real).allows.mono ?_)
  rintro verdict world ⟨_, held⟩ a rfl
  exact done world (held rfl).1 (held rfl).2

/-- A block that is held, with that layout and an intact guard, can be given back. -/
theorem ends_deallocate
    (invariant : Invariant ⟨⟨debug, ⟨parent, default⟩⟩, blocks, serials, peak⟩ others) (real : ptr ≠ 0)
    (live : Live blocks ptr layout) (intact : Intact parent.bytes ptr layout)
    {post : Unit -> Worlds Parent -> Prop}
    (done : forall world, world.ctx.requests = debug.requests -> Invariant
      ⟨world, blocks.eraseP fun block => block.addr == ptr, serials, peak⟩ others -> post () world) :
    Ends (deallocate Act.al (some ptr) layout) ⟨debug, ⟨parent, default⟩⟩ post := by
  rcases live with ⟨entry, inside, same, rfl⟩
  rcases invariant.made entry inside with ⟨asked, some_⟩
  simp only [deallocate, ends_bind, ends_require, some_, or_true, asked.isAlign, true_and]
  refine ends_orAbort.mpr ((ends_dealloc_verdict invariant real).mono ?_)
  rintro verdict world ⟨passes, held⟩
  have right := passes.mpr ⟨⟨entry, inside, same, rfl⟩, intact⟩
  exact ⟨(), right, done world (held right).1 (held right).2⟩

/-- Bytes of a held block are written, its guard among them. -/
theorem Invariant.written
    (invariant : Invariant ⟨⟨debug, ⟨parent, default⟩⟩, blocks, serials, peak⟩ others)
    (inside : entry ∈ blocks) {region : Region}
    (within : region.Within (Parent.region (guarded entry.addr entry.layout))) (content : Nat -> Byte) :
    Invariant ⟨⟨debug, ⟨{ parent with bytes := parent.bytes.overwrite region content }, default⟩⟩, blocks,
      serials, peak⟩ others := by
  have apart := (List.pairwise_cons.mp ((kept_erase inside).pairwise invariant.apart
    fun apart => Region.Apart.symm apart)).1
  refine invariant.rewritten rfl (Bytes.keeps_overwrite _ _ _) ?_
  intro freed waits addr covers
  exact ((apart _ (mem_kept_freed waits)).within within (Region.Within.refl _)).symm.not_covers covers

/-- What a realloc copies lies in the new block. -/
theorem copied_within (addr : Nat) (old : Layout) (newSize : Nat) :
    Region.Within ⟨addr, if old.size < newSize then old.size else newSize⟩
      (Parent.region (guarded addr ⟨newSize, old.align⟩)) := by
  have less : (if old.size < newSize then old.size else newSize) ≤ newSize + guardSize := by
    split <;> omega
  exact Region.within_of_le less

/-- If a block could be resized, then the new block is held and the old one is not. -/
theorem allows_reallocate
    (invariant : Invariant ⟨⟨debug, ⟨parent, default⟩⟩, blocks, serials, peak⟩ others)
    (more : 0 < newSize -> debug.requests + 1 < 2 ^ 64) (real : ptr ≠ 0) (asked : old.Asked)
    (fits : newSize < sizeRange) {post : Option Addr -> Worlds Parent -> Prop}
    (freed : newSize = 0 -> forall world, Invariant
      ⟨world, blocks.eraseP fun block => block.addr == ptr, serials, peak⟩ others -> post none world)
    (refused : newSize ≠ 0 -> forall world, Invariant ⟨world, blocks, serials, peak⟩ others ->
      post none world)
    (moved : forall addr world, world.ctx.requests = debug.requests + 1 ->
      Invariant ⟨world, (⟨addr, ⟨newSize, old.align⟩, debug.requests + 1⟩ :: blocks).eraseP
          fun block => block.addr == ptr, (debug.requests + 1) :: serials,
        max peak (total (⟨addr, ⟨newSize, old.align⟩, debug.requests + 1⟩ :: blocks))⟩ others ->
      post (some addr) world) :
    Allows (reallocate Act.al (some ptr) old newSize) ⟨debug, ⟨parent, default⟩⟩ post := by
  simp only [reallocate, allows_bind, allows_require]
  intro _ _
  by_cases nothing : newSize = 0
  · rw [if_pos nothing]
    simp only [allows_bind, allows_pure]
    refine allows_deallocate invariant real ?_
    exact fun world _ held => freed nothing world held
  · have wanted : 0 < newSize := Nat.pos_of_ne_zero nothing
    have asked' : Layout.Asked ⟨newSize, old.align⟩ := ⟨asked.isAlign, fits, asked.align⟩
    rw [if_neg nothing]
    simp only [resizeInPlace, moveByHook, Debug.toAl, allows_bind, allows_require, allows_pure,
      Bool.false_eq_true, if_false]
    intro _ _ sized _
    refine allows_orAbort.mpr ((ends_remap_verdict invariant sized.1 wanted).allows.mono ?_)
    rintro verdict world ⟨_, same⟩ moved_ ok
    rcases same moved_ ok with ⟨rfl, rfl⟩
    simp only [allows_bind]
    intro _
    refine (ends_allocate invariant more asked' ?_ ?_).allows
    · intro world held _
      simp only [allows_pure]
      exact refused nothing world held
    · rintro addr ⟨debug', ⟨parent', default'⟩⟩ requests _ held
      simp only [copyBytes, allows_bind, allows_modify, allows_pure]
      have copied := held.written List.mem_cons_self (copied_within addr old newSize)
        fun offset => parent'.bytes (ptr + offset)
      refine allows_deallocate copied real ?_
      exact fun world same dropped => moved addr world (same.trans requests) dropped

/-- A block that is held, with that layout and an intact guard, can be resized. -/
theorem ends_reallocate
    (invariant : Invariant ⟨⟨debug, ⟨parent, default⟩⟩, blocks, serials, peak⟩ others)
    (more : 0 < newSize -> debug.requests + 1 < 2 ^ 64) (real : ptr ≠ 0) (fits : newSize < sizeRange)
    (live : Live blocks ptr old) (intact : Intact parent.bytes ptr old) :
    Ends (reallocate Act.al (some ptr) old newSize) ⟨debug, ⟨parent, default⟩⟩ fun _ _ => True := by
  rcases live with ⟨entry, inside, same, rfl⟩
  rcases invariant.made entry inside with ⟨asked, some_⟩
  have live : Live blocks ptr entry.layout := ⟨entry, inside, same, rfl⟩
  have asked' : Layout.Asked ⟨newSize, entry.layout.align⟩ := ⟨asked.isAlign, fits, asked.align⟩
  have present : (some ptr = none <-> entry.layout.size = 0) :=
    ⟨(nomatch ·), fun empty => absurd empty (Nat.ne_of_gt some_)⟩
  simp only [reallocate, ends_bind, ends_require, present, asked.isAlign, true_and]
  by_cases nothing : newSize = 0
  · rw [if_pos nothing]
    simp only [ends_bind, ends_pure]
    apply ends_deallocate invariant real live intact
    exact fun _ _ _ => trivial
  · have wanted : 0 < newSize := Nat.pos_of_ne_zero nothing
    rw [if_neg nothing]
    simp only [resizeInPlace, moveByHook, Debug.toAl, ends_bind, ends_require, ends_pure, some_,
      wanted, asked.isAlign, and_self, true_and, Bool.false_eq_true, if_false]
    refine ends_orAbort.mpr ((ends_remap_verdict invariant some_ wanted).mono ?_)
    rintro verdict world ⟨passes, unchanged⟩
    have right := passes.mpr live
    rcases unchanged none right with ⟨_, rfl⟩
    refine ⟨none, right, ?_⟩
    simp only [ends_bind]
    refine ⟨rfl, ?_⟩
    apply ends_allocate invariant more asked'
    · intro world _ _
      simp only [ends_pure]
    · rintro addr ⟨debug', ⟨parent', default'⟩⟩ _ keeps held
      simp only [copyBytes, ends_bind, ends_modify, ends_pure]
      have copied := held.written List.mem_cons_self (copied_within addr entry.layout newSize)
        fun offset => parent'.bytes (ptr + offset)
      have also : Live (⟨addr, ⟨newSize, entry.layout.align⟩, debug.requests + 1⟩ :: blocks) ptr entry.layout :=
        ⟨entry, List.mem_cons_of_mem _ inside, same, rfl⟩
      -- neither the new block nor the copy reaches the guard of the old one
      have apart := (List.pairwise_cons.mp held.apart).1 _ (mem_kept_block inside)
      have guard_within : Region.Within ⟨ptr + entry.layout.size, guardSize⟩
          (Parent.region (guarded entry.addr entry.layout)) := by
        rw [← same]
        unfold Region.Within Region.stop Parent.region guarded
        dsimp only
        omega
      have still : Intact (parent'.bytes.copy addr ptr
          (if entry.layout.size < newSize then entry.layout.size else newSize)) ptr entry.layout := by
        intro at_ covers
        have outside := (apart.within (Region.Within.refl _) guard_within).symm.not_covers covers
        have notCopied := (apart.within (copied_within addr entry.layout newSize) guard_within).symm.not_covers
          covers
        exact ((if_neg notCopied).trans (keeps at_ outside)).trans (intact at_ covers)
      apply ends_deallocate copied real also still
      exact fun _ _ _ => trivial

/-- All that waits goes back to the parent. -/
theorem ends_flushQuarantine
    (invariant : Invariant ⟨⟨debug, ⟨parent, default⟩⟩, blocks, serials, peak⟩ others) :
    Ends Debug.flushQuarantine ⟨debug, ⟨parent, default⟩⟩ fun verdict world =>
      verdict = .ok () ∧ Invariant ⟨world, blocks, serials, peak⟩ others := by
  have parent_eq : debug.parent = some Parent.toAl := invariant.parent
  simp only [Debug.flushQuarantine, assertDebug, ends_bind, World.ends_self, parent_eq,
    ends_demand_some]
  refine ends_loop (n := debug.quarantineLen) (fun n _ world => n = world.ctx.quarantineLen ∧
    Invariant ⟨world, blocks, serials, peak⟩ others) ?_ ⟨rfl, invariant⟩ (Nat.lt_succ_self _)
  rintro n _ ⟨debug, ⟨parent, default⟩⟩ ⟨rfl, invariant⟩
  simp only [ends_bind, World.ends_self]
  cases len : debug.quarantineLen with
  | zero =>
      simp only [gt_iff_lt, Nat.lt_irrefl, if_false, ends_pure]
      exact ⟨trivial, invariant⟩
  | succ n =>
      simp only [gt_iff_lt, Nat.succ_pos, if_true, ends_bind]
      apply ends_releaseOldest invariant len
      intro later _ released
      simp only [ends_pure]
      exact ⟨n, Nat.lt_succ_self n, rfl, released⟩

/-! ## Acts -/

theorem entered_eq {world : Worlds Parent} {addr requests : Nat} (same : world.ctx.requests = requests)
    {post : Unit -> DebugProgram -> Prop} :
    Ends (enter (some addr) layout) ⟨world, blocks, serials, peak⟩ post <->
      post () ⟨world, ⟨addr, layout, requests⟩ :: blocks, requests :: serials,
        max peak (total (⟨addr, layout, requests⟩ :: blocks))⟩ := by
  subst same
  simp only [enter, ends_modify]
  exact Iff.rfl

/-- The act is a correct use: what it gives back or resizes is held, with that layout
and an intact guard. -/
def Correct : Act -> DebugProgram -> Prop
  | .realloc ptr old _, program | .dealloc ptr old, program =>
      Live program.blocks ptr old ∧ Intact program.parent.bytes ptr old
  | _, _ => True

/-- An act that ends, however it was meant, leaves everything accounted for. -/
theorem allows_run (invariant : Invariant program others) (act : Act) (allowed : act.Allowed program)
    (counted : act.Counted program) :
    Allows act.run program fun _ later => Invariant later others := by
  rcases program with ⟨⟨debug, ⟨parent, default⟩⟩, blocks, serials, peak⟩
  have handed : forall {layout : Layout}, layout.Asked -> (0 < layout.size -> debug.requests + 1 < 2 ^ 64) ->
      Ends (allocate Act.al layout) ⟨debug, ⟨parent, default⟩⟩ fun ptr world =>
        Ends (enter ptr layout) ⟨world, blocks, serials, peak⟩ fun _ later => Invariant later others := by
    intro layout asked more
    apply ends_allocate invariant more asked
    · exact fun world held _ => (ends_pure _ _ _).mpr held
    · exact fun addr world requests _ held => (entered_eq requests).mpr held
  cases act with
  | alloc layout =>
      simp only [Act.run, allows_bind, allows_call]
      exact (handed allowed counted).allows.mono fun _ _ ends => ends.allows
  | allocZeroed layout =>
      simp only [Act.run, allows_bind, allows_call, allocateZeroed, allows_require, Debug.toAl]
      intro _
      by_cases empty : layout.size = 0
      · simp only [if_pos empty, allows_pure]
        exact fun _ _ same => by
          cases same
          exact invariant
      · simp only [if_neg empty, allows_bind]
        refine (ends_allocate invariant counted allowed ?_ ?_).allows
        · intro world held _
          simp only [allows_pure, enter]
          exact held
        · rintro addr ⟨debug', ⟨parent', default'⟩⟩ requests _ held
          simp only [setBytes, allows_bind, allows_modify, allows_pure]
          have within : Region.Within ⟨addr, layout.size⟩ (Parent.region (guarded addr layout)) :=
            Region.within_of_le (Nat.le_add_right _ _)
          let later : Parent := { parent' with bytes := parent'.bytes.fill addr layout.size 0 }
          have zeroed : Invariant ⟨⟨debug', ⟨later, default'⟩⟩,
              ⟨addr, layout, debug.requests + 1⟩ :: blocks, (debug.requests + 1) :: serials,
              max peak (total (⟨addr, layout, debug.requests + 1⟩ :: blocks))⟩ others :=
            held.written List.mem_cons_self within fun _ => 0
          have same : (⟨debug', ⟨later, default'⟩⟩ : Worlds Parent).ctx.requests = debug.requests + 1 :=
            requests
          have after : Ends (enter (some addr) layout) ⟨⟨debug', ⟨later, default'⟩⟩, blocks, serials, peak⟩
              fun _ later => Invariant later others := (entered_eq same).mpr zeroed
          exact after.allows
  | realloc ptr old newSize =>
      rcases allowed with ⟨real, asked, some_, fits⟩
      simp only [Act.run, allows_bind, allows_call]
      refine allows_reallocate invariant counted (Nat.ne_of_gt real) asked fits ?_ ?_ ?_
      · intro nothing world held
        simp only [if_pos nothing, drop, allows_modify]
        exact held
      · intro something world held
        simp only [if_neg something, allows_pure]
        exact held
      · intro addr world requests held
        simp only [allows_bind]
        refine ((entered_eq requests).mpr ?_).allows
        simp only [drop, allows_modify]
        exact held
  | reallocNull align newSize =>
      simp only [Act.run, allows_bind, allows_call, reallocate, allows_require]
      intro _ _
      by_cases nothing : newSize = 0
      · simp only [if_pos nothing, deallocate, allows_bind, allows_require, allows_pure, enter]
        exact fun _ _ => invariant
      · rw [if_neg nothing]
        exact (handed allowed counted).allows.mono fun _ _ ends => ends.allows
  | dealloc ptr layout =>
      rcases allowed with ⟨real, _, _⟩
      simp only [Act.run, allows_bind, allows_call]
      refine allows_deallocate invariant (Nat.ne_of_gt real) ?_
      intro world _ held
      simp only [drop, allows_modify]
      exact held
  | flushQuarantine =>
      simp only [Act.run, allows_call]
      refine allows_orAbort.mpr ((ends_flushQuarantine invariant).allows.mono ?_)
      exact fun _ _ both _ _ => both.2
  | failAfter count =>
      have parent_eq : debug.parent = some Parent.toAl := invariant.parent
      have ends : Ends (Debug.setFailAfter count) ⟨debug, ⟨parent, default⟩⟩ fun _ world =>
          Invariant ⟨world, blocks, serials, peak⟩ others := by
        simp only [Debug.setFailAfter, assertDebug, ends_bind, World.ends_self, parent_eq,
          ends_demand_some, World.ends_setSelf]
        rw [← parent_eq]
        exact ⟨invariant.parent, invariant.breakAt, invariant.requests, invariant.table, invariant.ring,
          invariant.out, invariant.apart, invariant.placed, invariant.made, invariant.filled,
          invariant.liveBytes, invariant.peak, invariant.serials, invariant.counted, invariant.numbered⟩
      simp only [Act.run, allows_call]
      exact ends.allows
  | write addr byte =>
      simp only [Act.run, allows_call, setBytes, allows_modify]
      let later : Parent := { parent with bytes := parent.bytes.fill addr 1 byte }
      have keeps : Bytes.Keeps parent.bytes later.bytes ⟨addr, 1⟩ :=
        Bytes.keeps_overwrite parent.bytes ⟨addr, 1⟩ fun _ => byte
      have same : later.out = parent.out := rfl
      refine invariant.rewritten same keeps ?_
      intro freed waits other covers written
      have same : other = addr := by
        unfold Region.Covers Region.stop at written
        dsimp only at written
        omega
      subst same
      exact allowed freed waits covers

/-- An act that is a correct use ends: nothing is reported. -/
theorem ends_run (invariant : Invariant program others) (act : Act) (allowed : act.Allowed program)
    (counted : act.Counted program) (correct : Correct act program) :
    Ends act.run program fun _ _ => True := by
  rcases program with ⟨⟨debug, ⟨parent, default⟩⟩, blocks, serials, peak⟩
  have handed : forall {layout : Layout}, layout.Asked -> (0 < layout.size -> debug.requests + 1 < 2 ^ 64) ->
      Ends (allocate Act.al layout) ⟨debug, ⟨parent, default⟩⟩ fun ptr world =>
        Ends (enter ptr layout) ⟨world, blocks, serials, peak⟩ fun _ _ => True := by
    intro layout asked more
    apply ends_allocate invariant more asked
    · exact fun world _ _ => (ends_pure _ _ _).mpr trivial
    · exact fun addr world requests _ _ => (entered_eq requests).mpr trivial
  cases act with
  | alloc layout =>
      simp only [Act.run, ends_bind, ends_call]
      exact handed allowed counted
  | allocZeroed layout =>
      have asked : layout.Asked := allowed
      simp only [Act.run, ends_bind, ends_call, allocateZeroed, ends_require, asked.isAlign, true_and,
        Debug.toAl]
      by_cases empty : layout.size = 0
      · simp only [if_pos empty, ends_pure, enter]
      · simp only [if_neg empty, ends_bind]
        apply ends_allocate invariant counted asked
        · intro world _ _
          simp only [ends_pure, enter]
        · intro addr world _ _ _
          simp only [setBytes, ends_bind, ends_modify, ends_pure, enter]
  | realloc ptr old newSize =>
      simp only [Act.run, ends_bind, ends_call]
      refine (ends_reallocate invariant counted (Nat.ne_of_gt allowed.1) allowed.2.2.2 correct.1 correct.2).mono ?_
      intro moved world _
      cases moved with
      | none =>
          by_cases nothing : newSize = 0
          · simp only [if_pos nothing, drop, ends_modify]
          · simp only [if_neg nothing, ends_pure]
      | some addr => simp only [ends_bind, enter, drop, ends_modify]
  | reallocNull align newSize =>
      have asked : Layout.Asked ⟨newSize, align⟩ := allowed
      have isAlign : Layout.isAlign align = true := asked.isAlign
      simp only [Act.run, ends_bind, ends_call, reallocate, ends_require, isAlign, true_and]
      by_cases nothing : newSize = 0
      · simp only [if_pos nothing, deallocate, ends_bind, ends_require, true_or, isAlign, true_and,
          ends_pure, enter]
      · simp only [if_neg nothing]
        exact handed asked counted
  | dealloc ptr layout =>
      simp only [Act.run, ends_bind, ends_call]
      apply ends_deallocate invariant (Nat.ne_of_gt allowed.1) correct.1 correct.2
      intro world _ _
      simp only [drop, ends_modify]
  | flushQuarantine =>
      simp only [Act.run, ends_call]
      refine ends_orAbort.mpr ((ends_flushQuarantine invariant).mono ?_)
      exact fun _ _ both => ⟨(), both.1, trivial⟩
  | failAfter count =>
      have parent_eq : debug.parent = some Parent.toAl := invariant.parent
      simp only [Act.run, ends_call, Debug.setFailAfter, assertDebug, ends_bind, World.ends_self,
        parent_eq, ends_demand_some, World.ends_setSelf]
  | write addr byte => simp only [Act.run, ends_call, setBytes, ends_modify]

/-! ## Reachable programs -/

/-- A program that made a debug allocator over the parent, and went on from there
without a report and short of `2 ^ 64` requests. -/
inductive Reachable (parent : Parent) (default : DefaultAl) : DebugProgram -> Prop
  | init : Reachable parent default ⟨⟨Debug.init Parent.toAl, ⟨parent, default⟩⟩, [], [], 0⟩
  | act {program later : DebugProgram} (reachable : Reachable parent default program) (act : Act)
      (allowed : act.Allowed program) (counted : act.Counted program)
      (ran : act.run program = some ((), later)) : Reachable parent default later

theorem Reachable.valid (reachable : Reachable parent default program) :
    Invariant program parent.out := by
  induction reachable with
  | init =>
      refine ⟨rfl, rfl, Nat.two_pow_pos 64, BlockTable.inert_holds, Nat.zero_le _, List.Perm.refl _,
        List.Pairwise.nil, ?_, ?_, ?_, rfl, rfl, List.Pairwise.nil, ?_, ?_⟩
      all_goals exact fun _ inside => absurd inside List.not_mem_nil
  | act reachable act allowed counted ran ih =>
      exact allows_run ih act allowed counted _ _ ran

/-- The subtraction in `debug_dealloc` does not underflow. -/
theorem size_le_total (inside : entry ∈ blocks) : entry.layout.size ≤ total blocks := by
  rw [total_erase inside]
  exact Nat.le_add_right _ _

/-- In whatever program short of `2 ^ 64` requests: the table has exactly the
blocks that are held, each with its layout and its serial, and the counts are
theirs.  A block given back, or one to be resized, passes without report exactly
if it is one of them, under its layout and, where it is given back, with its guard
intact.  A request is never reported, and no correct act is. -/
theorem Reachable.judges (reachable : Reachable parent default program) :
    (program.debug.table.slots.filter BlockTable.occupied).Perm program.blocks ∧
      (program.blocks.map BlockRecord.addr).Nodup ∧
      (forall addr, 0 < addr -> Ends (program.debug.table.find addr) () fun found _ =>
        forall block, found = some block <-> block ∈ program.blocks ∧ block.addr = addr) ∧
      program.debug.liveBytes = total program.blocks ∧
      (forall block, block ∈ program.blocks -> block.layout.size ≤ program.debug.liveBytes) ∧
      program.debug.peakBytes = program.peak ∧
      (program.serials.Pairwise fun later earlier => earlier < later) ∧
      (forall block, block ∈ program.blocks -> block.serial ∈ program.serials) ∧
      (forall ptr layout, 0 < ptr ->
        Ends (Debug.dealloc ptr layout) program.world fun verdict _ =>
          verdict = .ok () <-> Live program.blocks ptr layout ∧ Intact program.parent.bytes ptr layout) ∧
      (forall ptr layout newSize, 0 < ptr -> 0 < layout.size -> 0 < newSize ->
        Ends (Debug.remap ptr layout newSize) program.world fun verdict _ =>
          (exists moved, verdict = .ok moved) <-> Live program.blocks ptr layout) ∧
      (forall layout : Layout, layout.Asked -> 0 < layout.size -> program.debug.requests + 1 < 2 ^ 64 ->
        Ends (Debug.alloc layout) program.world fun verdict _ => exists ptr, verdict = .ok ptr) ∧
      forall act : Act, act.Allowed program -> act.Counted program -> Correct act program ->
        Ends act.run program fun _ later => Reachable parent default later := by
  have acts : forall act : Act, act.Allowed program -> act.Counted program -> Correct act program ->
      Ends act.run program fun _ later => Reachable parent default later := by
    intro act allowed counted correct
    rcases ends_run reachable.valid act allowed counted correct with ⟨_, later, ran, _⟩
    exact ⟨(), later, ran, reachable.act act allowed counted ran⟩
  have valid := reachable.valid
  rcases program with ⟨⟨debug, ⟨below, beside⟩⟩, blocks, serials, peak⟩
  refine ⟨valid.table.content, valid.table.distinct, ?_, valid.liveBytes, ?_, valid.peak, valid.serials,
    valid.numbered, ?_, ?_, ?_, acts⟩
  · intro addr _
    apply valid.table.ends_find
    · intro record inside same block
      constructor
      · intro equal
        cases equal
        exact ⟨inside, same⟩
      · rintro ⟨also, equal⟩
        rw [entry_eq valid.table.distinct inside also (same.trans equal.symm)]
    · intro absent block
      exact ⟨fun impossible => (by cases impossible), fun both => absurd both.2 (absent block both.1)⟩
  · intro block inside
    have liveBytes : debug.liveBytes = total blocks := valid.liveBytes
    exact liveBytes ▸ size_le_total inside
  · intro ptr layout real
    exact (ends_dealloc_verdict valid (Nat.ne_of_gt real)).mono fun _ _ both => both.1
  · intro ptr layout newSize real some_ wanted
    refine (ends_remap_verdict valid some_ wanted).mono ?_
    rintro verdict world ⟨passes, unmoved⟩
    rw [← passes]
    constructor
    · rintro ⟨moved, rfl⟩
      rw [(unmoved moved rfl).1]
    · exact fun ok => ⟨none, ok⟩
  · intro layout asked some_ more
    apply ends_alloc valid more asked some_
    · exact fun _ _ _ => ⟨none, rfl⟩
    · exact fun addr _ _ _ _ _ => ⟨some addr, rfl⟩

/-! ## Two blocks -/

/-- The program after an act, if that ended. -/
def after (program : DebugProgram) (act : Act) : DebugProgram := ((act.run program).map Prod.snd).getD program

theorem Reachable.after (reachable : Reachable parent default program) (act : Act) (allowed : act.Allowed program)
    (counted : act.Counted program) (correct : Correct act program) :
    Reachable parent default (program.after act) := by
  rcases ends_run reachable.valid act allowed counted correct with ⟨_, later, ran, _⟩
  have same : program.after act = later := by
    rw [DebugProgram.after, ran]
    rfl
  rw [same]
  exact reachable.act act allowed counted ran

/-- A parent that answers the request `n` with the address `4096 * (n + 1)`, and a default allocator that grants. -/
def spacedParent : Parent := ⟨fun _ => 0, [], fun n => ⟨some (4096 * (n + 1)), true, fun _ => 0⟩, 0⟩

def granting : DefaultAl := ⟨fun _ => true, 0⟩

/-- Blocks of 40 and of 24 bytes. -/
def twoBlocks : DebugProgram :=
  ((⟨⟨Debug.init Parent.toAl, ⟨spacedParent, granting⟩⟩, [], [], 0⟩ : DebugProgram).after (.alloc ⟨40, 8⟩)).after
    (.alloc ⟨24, 8⟩)

theorem twoBlocks_reachable : Reachable spacedParent granting twoBlocks :=
  (Reachable.init.after (.alloc ⟨40, 8⟩) ⟨by decide, by decide, by decide⟩ (fun _ => by decide) trivial).after
    (.alloc ⟨24, 8⟩) ⟨by decide, by decide, by decide⟩ (fun _ => by decide +kernel) trivial

/-- A block is given back as it was handed out: under another layout that is reported, and so it is to give it back
again. -/
theorem Reachable.judges_twoBlocks : Reachable spacedParent granting twoBlocks ∧
    twoBlocks.blocks = [⟨8192, ⟨24, 8⟩, 2⟩, ⟨4096, ⟨40, 8⟩, 1⟩] ∧ twoBlocks.debug.liveBytes = 64 ∧
    (Ends (Debug.dealloc 4096 ⟨41, 8⟩) twoBlocks.world fun verdict _ => verdict ≠ .ok ()) ∧
    (Ends (Debug.dealloc 4096 ⟨40, 8⟩) twoBlocks.world fun verdict _ => verdict = .ok ()) ∧
    Reachable spacedParent granting (twoBlocks.after (.dealloc 4096 ⟨40, 8⟩)) ∧
    (twoBlocks.after (.dealloc 4096 ⟨40, 8⟩)).debug.liveBytes = 24 ∧
    Ends (Debug.dealloc 4096 ⟨40, 8⟩) (twoBlocks.after (.dealloc 4096 ⟨40, 8⟩)).world fun verdict _ =>
      verdict ≠ .ok () := by
  have two : twoBlocks.blocks = [⟨8192, ⟨24, 8⟩, 2⟩, ⟨4096, ⟨40, 8⟩, 1⟩] := by decide +kernel
  have one : (twoBlocks.after (.dealloc 4096 ⟨40, 8⟩)).blocks = [⟨8192, ⟨24, 8⟩, 2⟩] := by decide +kernel
  have intact : Intact twoBlocks.parent.bytes 4096 ⟨40, 8⟩ := allEqual_iff.mp (by decide +kernel)
  have live : Live twoBlocks.blocks 4096 ⟨40, 8⟩ := by
    rw [two]
    unfold Live
    decide
  have otherwise : ¬ Live twoBlocks.blocks 4096 ⟨41, 8⟩ := by
    rw [two]
    unfold Live
    decide
  have gone : ¬ Live (twoBlocks.after (.dealloc 4096 ⟨40, 8⟩)).blocks 4096 ⟨40, 8⟩ := by
    rw [one]
    unfold Live
    decide
  have returned := twoBlocks_reachable.after (.dealloc 4096 ⟨40, 8⟩) ⟨by decide, ⟨by decide, by decide, by decide⟩,
    by decide⟩ trivial ⟨live, intact⟩
  rcases Reachable.judges twoBlocks_reachable with ⟨_, _, _, both, _, _, _, _, judged, _⟩
  rcases Reachable.judges returned with ⟨_, _, _, less, _, _, _, _, judgedAgain, _⟩
  rw [two] at both
  rw [one] at less
  refine ⟨twoBlocks_reachable, two, both, ?_, ?_, returned, less, ?_⟩
  · exact (judged 4096 ⟨41, 8⟩ (by decide)).mono fun _ _ exactly ok => otherwise (exactly.mp ok).1
  · exact (judged 4096 ⟨40, 8⟩ (by decide)).mono fun _ _ exactly => exactly.mpr ⟨live, intact⟩
  · exact (judgedAgain 4096 ⟨40, 8⟩ (by decide)).mono fun _ _ exactly ok => gone (exactly.mp ok).1

/-! ## The number that wraps -/

/-- A parent that refuses. -/
def refusing : Parent := ⟨fun _ => 0, [], fun _ => ⟨none, false, fun _ => 0⟩, 0⟩

theorem ends_counted (invariant : Invariant program others) (more : program.debug.requests + 1 < 2 ^ 64) :
    Ends (Act.alloc ⟨1, 1⟩).run program fun _ later =>
      later.debug.requests = program.debug.requests + 1 := by
  rcases program with ⟨⟨debug, ⟨parent, default⟩⟩, blocks, serials, peak⟩
  simp only [Act.run, ends_bind, ends_call]
  apply ends_allocate invariant (fun _ => more) ⟨by decide, by decide, by decide⟩
  · intro world _ requests
    simp only [enter, ends_pure]
    exact requests Nat.one_pos
  · intro addr world requests _ _
    simp only [enter, ends_modify]
    exact requests

theorem exists_requests (n : Nat) (short : n < 2 ^ 64) :
    exists program, Reachable refusing granting program ∧ program.debug.requests = n := by
  induction n with
  | zero => exact ⟨_, .init, rfl⟩
  | succ n ih =>
      rcases ih (Nat.lt_of_succ_lt short) with ⟨program, reachable, rfl⟩
      rcases ends_counted reachable.valid short with ⟨_, later, ran, requests⟩
      exact ⟨later, reachable.act (.alloc ⟨1, 1⟩) ⟨by decide, by decide, by decide⟩ (fun _ => short) ran, requests⟩

/-- No break is set, and yet a correct request is reported as the one to break at:
its number wraps to 0. -/
theorem Reachable.judges_wrapped : exists (parent : Parent) (default : DefaultAl) (program : DebugProgram),
    Reachable parent default program ∧ program.debug.breakAt = 0 ∧
      Ends (Debug.alloc ⟨1, 1⟩) program.world fun verdict _ => verdict = .error (.breakAt 0) := by
  rcases exists_requests (2 ^ 64 - 1) (by decide) with ⟨program, reachable, requests⟩
  have valid := reachable.valid
  refine ⟨refusing, granting, program, reachable, valid.breakAt, ?_⟩
  rcases program with ⟨⟨debug, ⟨parent, default⟩⟩, blocks, serials, peak⟩
  have parent_eq : debug.parent = some Parent.toAl := valid.parent
  have breakAt : debug.breakAt = 0 := valid.breakAt
  have wraps : (debug.requests + 1) % 2 ^ 64 = 0 := by
    have last : debug.requests = 2 ^ 64 - 1 := requests
    rw [last, Nat.sub_add_cancel (Nat.two_pow_pos 64), Nat.mod_self]
  simp only [Debug.alloc, assertDebug, ends_bind, World.ends_self, parent_eq, ends_demand_some,
    ends_require, nextSerial, World.ends_setSelf, wraps, breakAt, if_true, ends_pure]
  decide

end DebugProgram
end TerseDsa
