import TerseDsa.Debug.Quarantine

namespace TerseDsa

open Foundation Run AlVtable

/-!
# The history of the quarantine

A program over a debug allocator notes which blocks it gave back, and which ones
the parent got back when it gave a block back, flushed the quarantine or gave
the allocator up.
-/

/-- The debug allocator over a parent whose calls are written down, with the notes. -/
structure QuarantineProgram where
  world : Debug.Worlds (Traced Parent)
  given : List (Nat × Layout)
  returned : List (Nat × Layout)

namespace QuarantineProgram

open Debug

variable {α : Type}

/-- The blocks in quarantine, oldest first. -/
def waiting (program : QuarantineProgram) : List (Nat × Layout) :=
  program.world.ctx.waiting.map fun freed => (freed.ptr, freed.layout)

/-- The blocks as the parent has them out. -/
def withGuards (blocks : List (Nat × Layout)) : List (Nat × Layout) :=
  blocks.map fun block => guarded block.1 block.2

/-- Call the allocator. -/
def call (run : Run (Worlds (Traced Parent)) α) : Run QuarantineProgram α :=
  zoom QuarantineProgram.world (fun world program => { program with world := world }) run

/-- Call the allocator, and note what the parent gets back meanwhile. -/
def watch (run : Run (Worlds (Traced Parent)) α) : Run QuarantineProgram α := do
  let before ← get
  let result ← call run
  modify fun program => { program with
    returned := program.returned ++
      HookCall.givenBack ((calls program.world).drop (calls before.world).length) }
  return result

/-- What a program may do. -/
inductive Act where
  | alloc (layout : Layout)
  | dealloc (ptr : Nat) (layout : Layout)
  | flushQuarantine
  | deinit
  | write (addr : Nat) (byte : Byte)

namespace Act

/-- The hooks of the debug allocator. -/
abbrev al : AlVtable (Worlds (Traced Parent)) := Debug.toAl (Traced Parent)

def run : Act -> Run QuarantineProgram Unit
  | alloc layout => do
      let _ ← call (allocate al layout)
  | dealloc ptr layout => do
      watch (deallocate al (some ptr) layout)
      modify fun program => { program with given := program.given ++ [(ptr, layout)] }
  | flushQuarantine => watch (Debug.orAbort Debug.flushQuarantine)
  | deinit => watch (Debug.orAbort Debug.deinit)
  | write addr byte => call (setBytes addr 1 byte)

/-- The arguments are of their types, and no block is written after it was given back. -/
def Allowed : Act -> QuarantineProgram -> Prop
  | alloc layout, _ => layout.Asked
  | dealloc ptr layout, _ => 0 < ptr ∧ layout.Asked ∧ 0 < layout.size
  | flushQuarantine, _ | deinit, _ => True
  | write addr _, program => forall block, block ∈ withGuards program.waiting ->
      ¬ (Parent.region block).Covers addr

/-- A correct use, short of `2 ^ 64` requests: what is given back is in the table, with
that layout, and its guard is intact. -/
def Correct : Act -> QuarantineProgram -> Prop
  | alloc layout, program => 0 < layout.size -> program.world.ctx.requests + 1 < 2 ^ 64
  | dealloc ptr layout, program =>
      (exists record, record ∈ program.world.ctx.table.slots ∧ record.addr = ptr ∧ record.layout = layout) ∧
        DebugProgram.Intact program.world.below.below.state.bytes ptr layout
  | _, _ => True

end Act

/-! ## What is known of every program -/

/-- The allocator as it is over the parent itself. -/
def shownWorld (world : Worlds (Traced Parent)) : Worlds Parent :=
  ⟨shown Parent.toAl world.ctx, ⟨world.below.below.state, world.below.default⟩⟩

/-- Some notes on the blocks that are held account for the allocator. -/
def Accounted (others : List (Nat × Layout)) (world : Worlds Parent) : Prop :=
  exists blocks serials peak, DebugProgram.Invariant ⟨world, blocks, serials, peak⟩ others

/-- The allocator is accounted for, as long as it was not given up. -/
structure Valid (program : QuarantineProgram) (others : List (Nat × Layout)) : Prop where
  accounted : program.world.ctx = Debug.inert ∨
    (program.world.ctx.parent = some Parent.toAl.traced ∧ Accounted others (shownWorld program.world))
  queue : withGuards program.given = program.returned ++ withGuards program.waiting

variable {program later : QuarantineProgram} {others : List (Nat × Layout)} {world : Worlds (Traced Parent)}
  {parent : Parent} {default : DefaultAl} {layout : Layout} {ptr : Nat}

theorem over_shown (traced : world.ctx.parent = some Parent.toAl.traced) :
    Over Parent.toAl world (shownWorld world) :=
  ⟨⟨fun _ there => Option.some.inj (there.symm.trans traced), rfl⟩, rfl, rfl⟩

theorem shown_of_over {other : Worlds Parent} (onto : Over Parent.toAl world other) : other = shownWorld world := by
  rcases other with ⟨ctx, below, default⟩
  rcases onto with ⟨⟨_, rfl⟩, rfl, rfl⟩
  rfl

theorem allows_watch {run : Run (Worlds (Traced Parent)) α} {post : α -> QuarantineProgram -> Prop} :
    Allows (watch run) program post <-> Allows run program.world fun a world =>
      post a { program with
        world := world
        returned := program.returned ++
          HookCall.givenBack ((calls world).drop (calls program.world).length) } := by
  unfold watch call
  rw [allows_bind, Run.allows_get, allows_bind, allows_zoom]
  constructor
  · refine fun allows => allows.mono fun a world after => ?_
    rw [allows_bind, allows_modify, allows_pure] at after
    exact after
  · refine fun allows => allows.mono fun a world after => ?_
    rw [allows_bind, allows_modify, allows_pure]
    exact after

/-- What was pushed and what was released are accounted for in the notes. -/
theorem queue_of_moved {before : Worlds (Traced Parent)} {given returned : List (Nat × Layout)}
    {pushed released : List FreedBlock}
    (ring : before.ctx.waiting ++ pushed = released ++ world.ctx.waiting)
    (called : calls world = calls before ++ released.map returning)
    (queue : withGuards given =
      returned ++ withGuards (before.ctx.waiting.map fun freed => (freed.ptr, freed.layout))) :
    withGuards (given ++ pushed.map fun freed => (freed.ptr, freed.layout)) =
      (returned ++ HookCall.givenBack ((calls world).drop (calls before).length)) ++
        withGuards (world.ctx.waiting.map fun freed => (freed.ptr, freed.layout)) := by
  have back : HookCall.givenBack ((calls world).drop (calls before).length) =
      withGuards (released.map fun freed => (freed.ptr, freed.layout)) := by
    rw [called, List.drop_left, HookCall.givenBack, List.filterMap_map, withGuards, List.map_map]
    change released.filterMap (some ∘ fun freed => guarded freed.ptr freed.layout) = _
    rw [List.filterMap_eq_map]
    rfl
  have both := congrArg (fun list => withGuards (list.map fun freed => (freed.ptr, freed.layout))) ring
  simp only [List.map_append, withGuards] at both queue back ⊢
  rw [queue, back, List.append_assoc, both, List.append_assoc]

/-! ## What one act leaves -/

variable {blocks : List BlockRecord} {serials : List Nat} {peak : Nat} {debug : Debug Parent}

/-- The request whose number wraps is reported. -/
theorem allows_alloc_wrapped
    (invariant : DebugProgram.Invariant ⟨⟨debug, ⟨parent, default⟩⟩, blocks, serials, peak⟩ others)
    (last : ¬ debug.requests + 1 < 2 ^ 64) :
    Allows (Debug.alloc layout) ⟨debug, ⟨parent, default⟩⟩ fun verdict _ => forall answer, verdict ≠ .ok answer := by
  have parent_eq : debug.parent = some Parent.toAl := invariant.parent
  have breakAt : debug.breakAt = 0 := invariant.breakAt
  have requests : debug.requests < 2 ^ 64 := invariant.requests
  have wraps : (debug.requests + 1) % 2 ^ 64 = 0 := by
    have last_ : debug.requests + 1 = 2 ^ 64 := by omega
    rw [last_, Nat.mod_self]
  by_cases some_ : 0 < layout.size
  · have reported : Ends (Debug.alloc layout) ⟨debug, ⟨parent, default⟩⟩ fun verdict _ =>
        verdict = .error (.breakAt 0) := by
      simp only [Debug.alloc, assertDebug, ends_bind, World.ends_self, parent_eq, ends_demand_some,
        ends_require, some_, true_and, nextSerial, World.ends_setSelf, wraps, breakAt, if_true, ends_pure]
    refine reported.allows.mono fun verdict _ same answer ok => ?_
    rw [same] at ok
    cases ok
  · unfold Debug.alloc
    rw [allows_bind]
    intro _ _ _
    rw [allows_bind]
    intro _ _ _
    rw [allows_bind, allows_require]
    exact fun positive => absurd positive some_

/-- A request leaves the allocator accounted for, whichever of the two it is made on. -/
theorem allows_allocate_shown
    (invariant : DebugProgram.Invariant ⟨⟨debug, ⟨parent, default⟩⟩, blocks, serials, peak⟩ others)
    (asked : layout.Asked) :
    Allows (allocate (Debug.toAl Parent) layout) ⟨debug, ⟨parent, default⟩⟩ fun _ world =>
      Accounted others world := by
  by_cases more : debug.requests + 1 < 2 ^ 64
  · refine Ends.allows (DebugProgram.ends_allocate invariant (fun _ => more) asked ?_ ?_)
    · exact fun world held _ => ⟨_, _, _, held⟩
    · exact fun addr world _ _ held => ⟨_, _, _, held⟩
  · unfold allocate
    rw [allows_bind, allows_require]
    intro _
    split
    · exact (allows_pure _ _ _).mpr ⟨_, _, _, invariant⟩
    · rw [allows_bind]
      refine DebugProgram.allows_orAbort.mpr ?_
      exact (allows_alloc_wrapped invariant more).mono fun verdict _ wrong answer ok => absurd ok (wrong answer)

/-- What a run over the parent whose calls are written down leaves, from what it leaves over the parent. -/
theorem accounted_of_shown {run : Run (Worlds (Traced Parent)) α} {run' : Run (Worlds Parent) α}
    (runs : Run.Matches (Over Parent.toAl) Eq run run') (traced : world.ctx.parent = some Parent.toAl.traced)
    {post : Worlds Parent -> Prop} (allows : Allows run' (shownWorld world) fun _ other => post other) :
    Allows run world fun _ later => post (shownWorld later) := by
  intro a later ran
  rcases runs.ends_eq (over_shown traced) ran with ⟨b, other, ranOther, _, onto⟩
  rw [← shown_of_over onto]
  exact allows b other ranOther

/-- Where nothing waits, all that was given back is with the parent. -/
theorem Valid.returned_of_empty (valid : Valid program others) (empty : program.world.ctx.waiting = []) :
    program.returned = withGuards program.given := by
  have queue := valid.queue
  rw [waiting, empty] at queue
  exact (queue.trans (List.append_nil _)).symm

/-- A request leaves all as it was, but for the table. -/
theorem Valid.alloc (valid : Valid program others) (asked : layout.Asked) :
    Allows (Act.alloc layout).run program fun _ later => Valid later others := by
  unfold Act.run call
  rw [allows_bind, allows_zoom]
  rcases valid.accounted with given | ⟨traced, blocks, serials, peak, invariant⟩
  · unfold allocate
    rw [allows_bind, allows_require]
    intro _
    split
    · rw [allows_pure, allows_pure]
      exact valid
    · rw [allows_bind]
      exact allows_orAbort (allows_inert given)
  · intro answer world ran
    have accounted := accounted_of_shown (allocate_matches layout) traced
      (allows_allocate_shown invariant asked) answer world ran
    rcases allows_allocate_moved traced answer world ran with ⟨parent, waits⟩
    refine (allows_pure _ _ _).mpr ⟨Or.inr ⟨parent.trans traced, accounted⟩, ?_⟩
    have queue := valid.queue
    unfold waiting at queue ⊢
    rw [← waits] at queue
    exact queue

/-- A block given back is noted, and so is the one that made room for it. -/
theorem Valid.dealloc (valid : Valid program others) (real : 0 < ptr) :
    Allows (Act.dealloc ptr layout).run program fun _ later => Valid later others := by
  unfold Act.run
  rw [allows_bind, allows_watch]
  rcases valid.accounted with given | ⟨traced, blocks, serials, peak, invariant⟩
  · unfold deallocate
    rw [allows_bind, allows_require]
    intro _
    rw [allows_bind, allows_require]
    exact fun _ => allows_orAbort (allows_inert given)
  · intro _ world ran
    have held : Allows (deallocate (Debug.toAl Parent) (some ptr) layout) (shownWorld program.world)
        fun _ other => Accounted others other :=
      DebugProgram.allows_deallocate invariant (Nat.ne_of_gt real) fun world _ held => ⟨_, _, _, held⟩
    have accounted := accounted_of_shown (deallocate_matches (some ptr) layout) traced held _ world ran
    rcases allows_deallocate_moved traced invariant.ring _ world ran with ⟨serial, released, moved⟩
    rw [allows_modify]
    exact ⟨Or.inr ⟨moved.parent.trans traced, accounted⟩, queue_of_moved moved.queue moved.calls valid.queue⟩

theorem Valid.flushQuarantine (valid : Valid program others) :
    Allows Act.flushQuarantine.run program fun _ later =>
      Valid later others ∧ later.world.ctx.waiting = [] := by
  unfold Act.run
  rw [allows_watch]
  rcases valid.accounted with given | ⟨traced, blocks, serials, peak, invariant⟩
  · exact allows_orAbort (allows_inert given)
  · intro _ world ran
    have held : Allows (Debug.orAbort Debug.flushQuarantine) (shownWorld program.world)
        fun _ other => Accounted others other :=
      DebugProgram.allows_orAbort.mpr ((DebugProgram.ends_flushQuarantine invariant).allows.mono
        fun _ _ both _ _ => ⟨_, _, _, both.2⟩)
    have accounted := accounted_of_shown (orAbort_matches flushQuarantine_matches) traced held _ world ran
    have flushed : Allows (Debug.orAbort Debug.flushQuarantine) program.world fun _ later =>
        Moved program.world later [] program.world.ctx.waiting ∧ later.ctx.waiting = [] :=
      allows_orAbort ((allows_flushQuarantine traced).mono fun _ _ flushed _ ok => flushed ok)
    rcases flushed _ world ran with ⟨moved, empty⟩
    have queue := queue_of_moved moved.queue moved.calls valid.queue
    rw [List.map_nil, List.append_nil] at queue
    exact ⟨⟨Or.inr ⟨moved.parent.trans traced, accounted⟩, queue⟩, empty⟩

/-- Nor does anything once the allocator was given up. -/
theorem Valid.deinit (valid : Valid program others) :
    Allows Act.deinit.run program fun _ later => Valid later others ∧ later.world.ctx.waiting = [] := by
  unfold Act.run
  rw [allows_watch]
  have nothing : (inert : Debug (Traced Parent)).waiting = [] := rfl
  rcases valid.accounted with given | ⟨traced, blocks, serials, peak, invariant⟩
  · refine allows_orAbort ?_
    unfold Debug.deinit
    rw [allows_bind, allows_self, given]
    refine (allows_pure _ _ _).mpr fun _ _ => ⟨⟨Or.inl given, ?_⟩, ?_⟩
    · rw [List.drop_length]
      exact valid.queue.trans (congrArg (· ++ _) (List.append_nil _).symm)
    · rw [given, nothing]
  · refine allows_orAbort ((allows_deinit traced).mono fun verdict world given _ ok => ?_)
    rcases given ok with ⟨gone, called⟩
    have ring : program.world.ctx.waiting ++ [] = program.world.ctx.waiting ++ world.ctx.waiting := by
      rw [gone, nothing]
    have queue := queue_of_moved ring called valid.queue
    rw [List.map_nil, List.append_nil] at queue
    refine ⟨⟨Or.inl gone, queue⟩, ?_⟩
    rw [gone, nothing]

/-- A write where no block waits is of no account. -/
theorem Valid.write (valid : Valid program others) {addr : Nat} (byte : Byte)
    (allowed : (Act.write addr byte).Allowed program) :
    Allows (Act.write addr byte).run program fun _ later => Valid later others := by
  unfold Act.run call
  rw [allows_zoom, setBytes, allows_modify]
  rcases valid.accounted with given | ⟨traced, blocks, serials, peak, invariant⟩
  · exact ⟨Or.inl given, valid.queue⟩
  · refine ⟨Or.inr ⟨traced, blocks, serials, peak, ?_⟩, valid.queue⟩
    have outside : (DebugProgram.Act.write addr byte).Allowed ⟨shownWorld program.world, blocks, serials, peak⟩ :=
      fun freed waits => allowed _ (List.mem_map_of_mem (List.mem_map_of_mem waits))
    exact DebugProgram.allows_run invariant (.write addr byte) outside trivial _ _ rfl

/-- Whatever act ends leaves everything accounted for, and the notes with it. -/
theorem valid_run (valid : Valid program others) (act : Act) (allowed : act.Allowed program) :
    Allows act.run program fun _ later => Valid later others := by
  cases act with
  | alloc layout => exact valid.alloc allowed
  | dealloc ptr layout => exact valid.dealloc allowed.1
  | flushQuarantine => exact valid.flushQuarantine.mono fun _ _ both => both.1
  | deinit => exact valid.deinit.mono fun _ _ both => both.1
  | write addr byte => exact valid.write byte allowed

/-! ## That correct acts end -/

theorem ends_watch {run : Run (Worlds (Traced Parent)) α} (ends : Ends run program.world fun _ _ => True) :
    Ends (watch run) program fun _ _ => True := by
  unfold watch call
  simp only [ends_bind, Run.ends_get, ends_zoom, ends_modify, ends_pure]
  exact ends

/-- What ends over the parent itself ends also where the calls are written down. -/
theorem ends_of_shown {run : Run (Worlds (Traced Parent)) α} {run' : Run (Worlds Parent) α}
    (runs : Run.Matches (Over Parent.toAl) Eq run run') (traced : world.ctx.parent = some Parent.toAl.traced)
    (ends : Ends run' (shownWorld world) fun _ _ => True) : Ends run world fun _ _ => True :=
  (runs.ends (over_shown traced) ends).mono fun _ _ _ => trivial

theorem ends_run (valid : Valid program others) (live : program.world.ctx.parent ≠ none) (act : Act)
    (allowed : act.Allowed program) (correct : act.Correct program) :
    Ends act.run program fun _ _ => True := by
  rcases valid.accounted with given | ⟨traced, blocks, serials, peak, invariant⟩
  · exact absurd (congrArg Debug.parent given) live
  cases act with
  | alloc layout =>
      unfold Act.run call
      rw [ends_bind, ends_zoom]
      refine (ends_of_shown (allocate_matches layout) traced ?_).mono fun _ _ _ => (ends_pure _ _ _).mpr trivial
      exact DebugProgram.ends_allocate invariant correct allowed (fun _ _ _ => trivial) fun _ _ _ _ _ => trivial
  | dealloc ptr layout =>
      unfold Act.run
      rw [ends_bind]
      refine (ends_watch (ends_of_shown (deallocate_matches (some ptr) layout) traced ?_)).mono fun _ _ _ =>
        (ends_modify _ _ _).mpr trivial
      rcases correct with ⟨⟨record, inside, same, made⟩, intact⟩
      have occupied : BlockTable.occupied record = true := bne_iff_ne.mpr (same ▸ Nat.ne_of_gt allowed.1)
      have held : record ∈ blocks := invariant.table.content.mem_iff.mp (List.mem_filter.mpr ⟨inside, occupied⟩)
      exact DebugProgram.ends_deallocate invariant (Nat.ne_of_gt allowed.1) ⟨record, held, same, made⟩ intact
        fun _ _ _ => trivial
  | flushQuarantine =>
      refine ends_watch (ends_of_shown (orAbort_matches flushQuarantine_matches) traced ?_)
      refine DebugProgram.ends_orAbort.mpr ((DebugProgram.ends_flushQuarantine invariant).mono ?_)
      exact fun _ _ both => ⟨(), both.1, trivial⟩
  | deinit =>
      refine ends_watch (ends_of_shown (orAbort_matches deinit_matches) traced ?_)
      refine DebugProgram.ends_orAbort.mpr ?_
      have parent_eq : (shownWorld program.world).ctx.parent = some Parent.toAl := invariant.parent
      simp only [Debug.deinit, ends_bind, World.ends_self, parent_eq]
      refine (DebugProgram.ends_flushQuarantine invariant).mono ?_
      rintro _ world ⟨rfl, _⟩
      simp only [ends_bind, World.ends_setSelf, ends_pure]
      exact ⟨(), trivial, trivial⟩
  | write addr byte =>
      unfold Act.run call
      rw [ends_zoom, setBytes]
      exact (ends_modify _ _ _).mpr trivial

/-! ## Reachable programs -/

/-- A program that made a debug allocator over the parent, and went on from there
without a report. -/
inductive Reachable (parent : Parent) (default : DefaultAl) : QuarantineProgram -> Prop
  | init : Reachable parent default ⟨⟨Debug.init Parent.toAl.traced, ⟨⟨parent, []⟩, default⟩⟩, [], []⟩
  | act {program later : QuarantineProgram} (reachable : Reachable parent default program) (act : Act)
      (allowed : act.Allowed program) (ran : act.run program = some ((), later)) :
      Reachable parent default later

theorem Reachable.valid (reachable : Reachable parent default program) : Valid program parent.out := by
  induction reachable with
  | init =>
      refine ⟨Or.inr ⟨rfl, [], [], 0, ?_⟩, rfl⟩
      have first : DebugProgram.Reachable parent default ⟨⟨Debug.init Parent.toAl, ⟨parent, default⟩⟩, [], [], 0⟩ :=
        .init
      exact first.valid
  | act reachable act allowed ran ih =>
      exact valid_run ih act allowed _ _ ran

/-- The blocks that wait are the last ones given back; the parent has the others, in order. -/
theorem Valid.split (valid : Valid program others) :
    exists released, program.given = released ++ program.waiting ∧ program.returned = withGuards released := by
  have injective : Function.Injective fun block : Nat × Layout => guarded block.1 block.2 := by
    rintro ⟨ptr, size, align⟩ ⟨ptr', size', align'⟩ same
    simp only [guarded, Prod.mk.injEq, Layout.mk.injEq, Nat.add_right_cancel_iff] at same
    rcases same with ⟨rfl, rfl, rfl⟩
    rfl
  rcases List.map_eq_append_iff.mp valid.queue with ⟨released, rest, split_, first, second⟩
  refine ⟨released, ?_, first.symm⟩
  rw [split_, List.map_injective_iff.mpr injective second]

theorem Valid.apart (valid : Valid program others) {record : BlockRecord}
    (inside : record ∈ program.world.ctx.table.slots) (occupied : record.addr ≠ 0) {block : Nat × Layout}
    (waits : block ∈ program.waiting) : block.1 ≠ record.addr := by
  rcases valid.accounted with given | ⟨_, blocks, serials, peak, invariant⟩
  · rw [given] at inside
    exact absurd inside List.not_mem_nil
  · rcases List.mem_map.mp waits with ⟨freed, there, rfl⟩
    have held : record ∈ blocks :=
      invariant.table.content.mem_iff.mp (List.mem_filter.mpr ⟨inside, bne_iff_ne.mpr occupied⟩)
    have away := (List.pairwise_append.mp invariant.apart).2.2 _ (List.mem_map_of_mem held) _
      (List.mem_map_of_mem there)
    have guard : 0 < guardSize := by decide
    intro same
    unfold Region.Apart Region.stop Parent.region guarded at away
    dsimp only at away same
    omega

/-- The quarantine is first in, first out, and loses nothing: what waits is what was given
back last, at most 64 blocks of it, and everything before that went to the parent, once and
in that order, with its guard.  A block in the table does not wait.  A request gives back
to the parent only what it just got from it.  After a flush, or once the allocator was
given up, the parent has everything; and a correct act is never reported. -/
theorem Reachable.first_out (reachable : Reachable parent default program) :
    (exists released, program.given = released ++ program.waiting ∧
      program.returned = withGuards released) ∧
    program.waiting.length ≤ quarantineCap ∧
    (forall record, record ∈ program.world.ctx.table.slots -> record.addr ≠ 0 ->
      forall block, block ∈ program.waiting -> block.1 ≠ record.addr) ∧
    (forall layout, Allows (Debug.alloc layout) program.world fun verdict later =>
      forall answer, verdict = .ok answer -> exists more, calls later = calls program.world ++ more ∧
        forall block, block ∈ HookCall.givenBack more -> HookCall.alloc block.2 (some block.1) ∈ more) ∧
    (forall later, Act.flushQuarantine.run program = some ((), later) ∨
        Act.deinit.run program = some ((), later) ->
      later.waiting = [] ∧ later.returned = withGuards later.given) ∧
    (program.world.ctx.parent ≠ none -> forall act : Act, act.Allowed program -> act.Correct program ->
      Ends act.run program fun _ later => Reachable parent default later) := by
  have valid := reachable.valid
  refine ⟨valid.split, ?_, ?_, ?_, ?_, ?_⟩
  · unfold waiting
    rw [List.length_map, DebugProgram.waiting_length]
    rcases valid.accounted with given | ⟨_, blocks, serials, peak, invariant⟩
    · rw [given]
      exact Nat.zero_le _
    · exact invariant.ring
  · exact fun record inside occupied block waits => valid.apart inside occupied waits
  · intro layout
    rcases valid.accounted with given | ⟨traced, _⟩
    · exact allows_inert given
    · refine (allows_alloc traced).mono fun verdict later kept answer ok => ?_
      exact (kept answer ok).2.2
  · rintro later (ran | ran)
    · rcases valid.flushQuarantine _ _ ran with ⟨validLater, empty⟩
      exact ⟨congrArg _ empty, validLater.returned_of_empty empty⟩
    · rcases valid.deinit _ _ ran with ⟨validLater, empty⟩
      exact ⟨congrArg _ empty, validLater.returned_of_empty empty⟩
  · intro live act allowed correct
    rcases ends_run valid live act allowed correct with ⟨_, later, ran, _⟩
    exact ⟨(), later, ran, reachable.act act allowed ran⟩

/-! ## Two blocks given back -/

/-- The program after an act, if that ended. -/
def after (program : QuarantineProgram) (act : Act) : QuarantineProgram :=
  ((act.run program).map Prod.snd).getD program

theorem Reachable.after (reachable : Reachable parent default program) (act : Act) (allowed : act.Allowed program)
    (ends : (act.run program).isSome = true) : Reachable parent default (program.after act) := by
  rcases Option.isSome_iff_exists.mp ends with ⟨⟨_, later⟩, ran⟩
  have same : program.after act = later := by
    rw [QuarantineProgram.after, ran]
    rfl
  rw [same]
  exact reachable.act act allowed ran

/-- Blocks of one byte and of two, and first the second is given back. -/
def twoGiven : QuarantineProgram :=
  ((((⟨⟨Debug.init Parent.toAl.traced, ⟨⟨DebugProgram.spacedParent, []⟩, DebugProgram.granting⟩⟩, [], []⟩ :
    QuarantineProgram).after (.alloc ⟨1, 1⟩)).after (.alloc ⟨2, 2⟩)).after (.dealloc 8192 ⟨2, 2⟩)).after
      (.dealloc 4096 ⟨1, 1⟩)

theorem twoGiven_reachable : Reachable DebugProgram.spacedParent DebugProgram.granting twoGiven := by
  have one : Layout.Asked ⟨1, 1⟩ := ⟨by decide, by decide, by decide⟩
  have two : Layout.Asked ⟨2, 2⟩ := ⟨by decide, by decide, by decide⟩
  have start : Reachable DebugProgram.spacedParent DebugProgram.granting _ := .init
  have first := start.after (.alloc ⟨1, 1⟩) one (by decide +kernel)
  have second := first.after (.alloc ⟨2, 2⟩) two (by decide +kernel)
  have third := second.after (.dealloc 8192 ⟨2, 2⟩) ⟨by decide, two, by decide⟩ (by decide +kernel)
  exact third.after (.dealloc 4096 ⟨1, 1⟩) ⟨by decide, one, by decide⟩ (by decide +kernel)

/-- The parent gets the two blocks, with their guards, in the order in which they were given back. -/
theorem Reachable.first_out_twoGiven : Reachable DebugProgram.spacedParent DebugProgram.granting twoGiven ∧
    twoGiven.given = [(8192, ⟨2, 2⟩), (4096, ⟨1, 1⟩)] ∧
    (exists released, twoGiven.given = released ++ twoGiven.waiting ∧ twoGiven.returned = withGuards released) ∧
    (twoGiven.after .flushQuarantine).waiting = [] ∧
    (twoGiven.after .flushQuarantine).returned = [(8192, ⟨18, 2⟩), (4096, ⟨17, 1⟩)] := by
  have given : twoGiven.given = [(8192, ⟨2, 2⟩), (4096, ⟨1, 1⟩)] := by decide +kernel
  have flushed : Act.flushQuarantine.run twoGiven = some ((), twoGiven.after .flushQuarantine) := by
    have ends : (Act.flushQuarantine.run twoGiven).isSome = true := by decide +kernel
    rcases Option.isSome_iff_exists.mp ends with ⟨⟨_, later⟩, ran⟩
    rw [QuarantineProgram.after, ran]
    rfl
  have kept : (twoGiven.after .flushQuarantine).given = [(8192, ⟨2, 2⟩), (4096, ⟨1, 1⟩)] := by decide +kernel
  rcases Reachable.first_out twoGiven_reachable with ⟨split_, _, _, _, emptied, _⟩
  rcases emptied _ (Or.inl flushed) with ⟨empty, all⟩
  exact ⟨twoGiven_reachable, given, split_, empty, all.trans (congrArg withGuards kept)⟩

end QuarantineProgram
end TerseDsa
