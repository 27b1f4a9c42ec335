import TerseDsa.Arena.Steps

namespace TerseDsa

open Foundation Run

/-!
# Safety of the arena

Whatever a program asks of an arena, its blocks lie where they may, and a mark
protects what was there before it.
-/

namespace ArenaProgram

variable {P : Type} {program later final : ArenaProgram P} {data : Nat} {block : ArenaBlock}

/-! ## One act -/

/-- `tda_alloc` and what is entered of it. -/
theorem onward_alloc (invariant : Invariant program data) (act : Act) {layout : Layout}
    (asked : layout.Asked) :
    Ends (call (AlVtable.allocate (Arena.toAl P) layout)) program fun ptr mid =>
      Ends (enter ptr layout) mid fun _ later => Onward program later data act := by
  rw [ends_call]
  have stay : Ends (enter none layout) { program with world := program.world }
      fun _ later => Onward program later data act :=
    (ends_pure _ _ _).mpr (Onward.idle invariant act)
  apply Arena.ends_allocate invariant.live asked
  · exact fun _ => stay
  · exact fun _ _ => stay
  · intro some_ start same aligned room
    apply (ends_modify _ _ _).mpr
    exact (Onward.idle invariant act).entered asked some_
      (by change program.world.ctx.offset ≤ start; omega) room aligned

variable [HasBytes P]

/-- A mark keeps the offset and the floor, and raises the floor. -/
theorem ends_mark (invariant : Invariant program data) {post : Unit -> ArenaProgram P -> Prop} :
    Ends (Act.run .mark) program post <-> post () { program with
      world := { program.world with ctx := { program.arena with floor := program.arena.offset } }
      marks := (⟨program.arena.offset, program.arena.floor⟩, program.next) :: program.marks } := by
  have live : Arena.Live program.world.ctx data := invariant.live
  simp only [Act.run, Arena.mark, ends_bind, ends_call, World.ends_self,
    Arena.ends_assertArena live, World.ends_setSelf, ends_pure, ends_modify]
  exact Iff.rfl

/-- A rewind passes its checks, and puts the offset and the floor back. -/
theorem ends_rewind (invariant : Invariant program data) {skipped : Nat} {mark : ArenaMark × Nat}
    (at_ : program.marks[skipped]? = some mark) {post : Unit -> ArenaProgram P -> Prop} :
    Ends (Act.run (.rewind skipped)) program post <-> post () { program with
      world := { program.world with ctx := { program.arena with
        offset := mark.1.offset, floor := mark.1.floor } }
      blocks := program.blocks.filter fun block => decide (block.serial < mark.2)
      marks := program.marks.drop (skipped + 1) } := by
  have live : Arena.Live program.world.ctx data := invariant.live
  have low : mark.1.offset ≤ program.world.ctx.offset :=
    Nat.le_trans (invariant.floors.le (List.mem_of_getElem? at_)) live.floor
  simp only [Act.run, ends_bind, Run.ends_get, at_, ends_demand_some, ends_call,
    Arena.rewind, World.ends_self, Arena.ends_assertArena live, ends_require, low,
    (invariant.floors.drop at_).1, World.ends_setSelf, ends_modify, true_and]
  exact Iff.rfl

/-- An act that callers may make ends, and does no more than it should. -/
theorem ends_run (invariant : Invariant program data) (act : Act) (allowed : act.Allowed program) :
    Ends act.run program fun _ later => Onward program later data act := by
  have live : Arena.Live program.world.ctx data := invariant.live
  cases act with
  | alloc layout =>
      simp only [Act.run, ends_bind]
      exact onward_alloc invariant _ allowed
  | allocZeroed layout =>
      simp only [Act.run, ends_bind, ends_call, AlVtable.allocateZeroed, ends_require,
        Layout.Asked.isAlign allowed, true_and]
      have stay : Ends (enter none layout) { program with world := program.world }
          fun _ later => Onward program later data (.allocZeroed layout) :=
        (ends_pure _ _ _).mpr (Onward.idle invariant _)
      by_cases empty : layout.size = 0
      · simp only [if_pos empty, ends_pure]
        exact stay
      · simp only [if_neg empty, Arena.toAl, ends_bind]
        apply Arena.ends_allocate live allowed
        · exact fun nothing => absurd nothing empty
        · intro _ _
          exact (ends_pure _ _ _).mpr stay
        · intro some_ start same aligned room
          simp only [AlVtable.setBytes, ends_bind, ends_modify, ends_pure, enter]
          exact ((Onward.idle invariant _).entered allowed some_
            (by change program.world.ctx.offset ≤ start; omega) room aligned).beneath _
  | resize serial newSize =>
      rcases allowed with ⟨holds, wanted, fits⟩
      simp only [Act.run, ends_bind]
      apply ends_lookUp holds
      intro block inside same held
      have placed := invariant.placed block inside
      subst same
      rw [ends_call]
      apply Arena.ends_resizeInPlace live placed.asked.isAlign placed.some_ wanted
        placed.above placed.inside
      · intro last high room
        simp only [if_true, ends_amend]
        exact Onward.resizedLast invariant _ inside wanted fits last high room
      · intro less
        simp only [if_true, ends_amend]
        exact Onward.lessened invariant _ (fun block => block.sized newSize) inside
          ⟨rfl, rfl, rfl, Or.inl less⟩ wanted
      · simp only [Bool.false_eq_true, if_false, ends_pure]
        exact Onward.idle invariant _
  | realloc serial newSize =>
      rcases allowed with ⟨holds, fits⟩
      simp only [Act.run, ends_bind]
      apply ends_lookUp holds
      intro block inside same held
      have placed := invariant.placed block inside
      subst same
      rw [ends_call]
      have given := Onward.lessened invariant (.realloc block.serial newSize) ArenaBlock.dropped inside
        ⟨rfl, rfl, rfl, Or.inl (Nat.le_refl _)⟩ placed.some_
      by_cases empty : newSize = 0
      · subst empty
        have real : ((some block.ptr : Option Addr) = none <-> block.layout.size = 0) :=
          ⟨fun impossible => (by cases impossible),
            fun nothing => absurd nothing (Nat.ne_of_gt placed.some_)⟩
        simp only [AlVtable.reallocate, ends_bind, ends_require, real, placed.asked.isAlign,
          true_and, if_true, ends_pure,
          Arena.ends_deallocate live placed.asked.isAlign placed.some_, ends_amend]
        exact given
      · apply Arena.ends_reallocate live placed.asked placed.some_
          (Nat.pos_of_ne_zero empty) fits placed.above placed.inside
        · intro last high room
          simp only [if_true, ends_amend]
          exact Onward.resizedLast invariant _ inside (Nat.pos_of_ne_zero empty) fits last high room
        · intro less
          simp only [if_true, ends_amend]
          exact Onward.lessened invariant _ (fun block => block.sized newSize) inside
            ⟨rfl, rfl, rfl, Or.inl less⟩ (Nat.pos_of_ne_zero empty)
        · simp only [if_neg empty, ends_pure]
          exact Onward.idle invariant _
        · intro start below behind aligned room
          have elsewhere : data + start ≠ block.ptr := by
            have within := placed.inside
            have some_ := placed.some_
            unfold ArenaBlock.stop at within
            change program.world.ctx.offset ≤ start at behind
            unfold arena at within
            omega
          simp only [if_neg elsewhere, ends_bind, ends_amend, enter, ends_modify]
          have asked : Layout.Asked ⟨newSize, block.layout.align⟩ :=
            ⟨placed.asked.isAlign, fits, placed.asked.align⟩
          exact (given.entered asked (Nat.pos_of_ne_zero empty) behind room aligned).beneath below
  | reallocNull align newSize =>
      have isAlign := Layout.Asked.isAlign allowed
      simp only [Act.run, ends_bind, AlVtable.reallocate, ends_call, ends_require, isAlign,
        true_and]
      by_cases empty : newSize = 0
      · simp only [if_pos empty, ends_bind, AlVtable.deallocate, ends_require, true_or,
          isAlign, true_and, ends_pure, enter]
        exact Onward.idle invariant _
      · simp only [if_neg empty]
        have step := onward_alloc invariant (.reallocNull align newSize) allowed
        rw [ends_call] at step
        exact step
  | dealloc serial =>
      simp only [Act.run, ends_bind]
      apply ends_lookUp allowed
      intro block inside same held
      have placed := invariant.placed block inside
      subst same
      rw [ends_call, Arena.ends_deallocate live placed.asked.isAlign placed.some_,
        ends_amend]
      exact Onward.lessened invariant _ ArenaBlock.dropped inside
        ⟨rfl, rfl, rfl, Or.inl (Nat.le_refl _)⟩ placed.some_
  | mark =>
      rw [ends_mark invariant]
      exact ⟨invariant.marked, ⟨_, _, rfl⟩, Nat.le_refl _, .taken _, fun block inside =>
        Or.inr ⟨block, inside, Carries.refl block⟩⟩
  | rewind skipped =>
      have at_ : program.marks[skipped]? = some program.marks[skipped] :=
        List.getElem?_eq_getElem allowed
      rw [ends_rewind invariant at_]
      refine ⟨invariant.rewound at_, ⟨_, _, rfl⟩, Nat.le_refl _, .rewound skipped, ?_⟩
      intro block inside
      by_cases early : block.serial < (program.marks[skipped]).2
      · exact Or.inr ⟨block, List.mem_filter.mpr ⟨inside, decide_eq_true early⟩, Carries.refl block⟩
      · exact Or.inl (Or.inr ⟨skipped, _, rfl, at_, Nat.le_of_not_lt early⟩)
  | reset =>
      simp only [Act.run, Arena.reset, ends_bind, ends_call, World.ends_self,
        Arena.ends_assertArena live, World.ends_setSelf, ends_modify]
      exact ⟨invariant.emptied, ⟨_, _, rfl⟩, Nat.le_refl _, .reset, fun _ _ => Or.inl (Or.inl rfl)⟩

/-! ## Reachable programs -/

/-- A program that made an arena, over a block of a parent's or over a caller's
buffer, and went on from there.  The memory it got lies in the address space. -/
inductive Reachable : ArenaProgram P -> Prop
  | initCap {before after : P} {cap : Nat} {parent : AlVtable P} {arena : Arena P}
      (ran : Arena.initCap cap parent before = some ((.ok, some arena), after))
      (room : forall data, arena.data = some data -> 0 < data ∧ data + cap < sizeRange) :
      Reachable ⟨⟨arena, after⟩, [], [], 0⟩
  | initBuf {before after : P} {buf cap : Nat} {arena : Arena P}
      (ran : Arena.initBuf buf cap before = some (arena, after)) (room : buf + cap < sizeRange) :
      Reachable ⟨⟨arena, after⟩, [], [], 0⟩
  | act {program later : ArenaProgram P} (reachable : Reachable program) (act : Act)
      (allowed : act.Allowed program) (ran : act.run program = some ((), later)) : Reachable later

omit [HasBytes P] in
theorem Invariant.start (parent : Option (AlVtable P)) (below : P) {cap : Nat} (base : 0 < data)
    (room : data + cap < sizeRange) (some_ : 0 < cap) :
    Invariant ⟨⟨Arena.fill parent data cap, below⟩, [], [], 0⟩ data :=
  ⟨⟨rfl, base, room, some_, Nat.le_refl 0, Nat.zero_le _⟩,
    fun _ inside => absurd inside List.not_mem_nil, List.Pairwise.nil, List.Pairwise.nil,
    fun _ inside => absurd inside List.not_mem_nil, rfl,
    fun _ inside => absurd inside List.not_mem_nil, fun _ inside => absurd inside List.not_mem_nil⟩

theorem Reachable.invariant (reachable : Reachable program) : exists data, Invariant program data := by
  induction reachable with
  | @initCap before after cap parent arena ran room =>
      have ends : Ends (Arena.initCap cap parent) before fun result _ =>
          result = (.ok, some arena) := ⟨_, _, ran, rfl⟩
      simp only [Arena.initCap, ends_bind, ends_require] at ends
      rcases ends with ⟨some_, ptr, mid, _, rest⟩
      cases ptr with
      | none => simp [ends_pure] at rest
      | some data =>
          simp only [ends_pure, Prod.mk.injEq, true_and, Option.some.injEq] at rest
          subst rest
          have fits := room data rfl
          exact ⟨data, Invariant.start (some parent) after fits.1 fits.2 some_⟩
  | @initBuf before after buf cap arena ran room =>
      have ends : Ends (Arena.initBuf buf cap) before fun result _ => result = arena :=
        ⟨_, _, ran, rfl⟩
      simp only [Arena.initBuf, ends_bind, ends_require, ends_pure] at ends
      rcases ends with ⟨real, some_, rfl⟩
      exact ⟨buf, Invariant.start none after (Nat.pos_of_ne_zero real) room some_⟩
  | act _ act allowed ran ih =>
      rcases ih with ⟨data, invariant⟩
      exact ⟨data, ((ends_run invariant act allowed).of_eq ran).invariant⟩

/-- In every reachable program the cursor is between the floor and the capacity, and
the blocks in the books lie apart, on their alignments, before the cursor; a request
is refused, without a trace, exactly when the padded block does not fit; and no call
that is allowed goes wrong. -/
theorem Reachable.blocks_apart (reachable : Reachable program) :
    exists data, program.arena.data = some data ∧
      program.arena.floor ≤ program.arena.offset ∧ program.arena.offset ≤ program.arena.cap ∧
      (forall block, block ∈ program.blocks ->
        block.region.Within ⟨data, program.arena.offset⟩ ∧ block.layout.align ∣ block.ptr) ∧
      program.blocks.Pairwise (fun left right => left.region.Apart right.region) ∧
      (forall layout : Layout, layout.Asked -> 0 < layout.size ->
        Ends (AlVtable.allocate (Arena.toAl P) layout) program.world fun ptr later =>
          let start := program.arena.offset + alignPad (data + program.arena.offset) layout.align
          (ptr = none <-> sizeRange ≤ start ∨ sizeRange ≤ start + layout.size ∨
            program.arena.cap < start + layout.size) ∧ (ptr = none -> later = program.world)) ∧
      forall act : Act, act.Allowed program ->
        Ends act.run program fun _ later => Reachable later := by
  rcases reachable.invariant with ⟨data, invariant⟩
  have live := invariant.live
  refine ⟨data, live.data_eq, live.floor, live.offset, ?_, ?_, ?_, ?_⟩
  · intro block inside
    have placed := invariant.placed block inside
    exact ⟨⟨placed.above, placed.inside⟩, placed.aligned⟩
  · exact invariant.ordered.imp fun before => Or.inl before
  · intro layout asked some_
    have room := live.room
    apply Arena.ends_allocate invariant.live asked
    · exact fun empty => absurd empty (Nat.ne_of_gt some_)
    · exact fun _ full => ⟨⟨fun _ => Or.inr (Or.inr full), fun _ => rfl⟩, fun _ => rfl⟩
    · intro _ start same _ fits
      change start = program.arena.offset + alignPad (data + program.arena.offset) layout.align at same
      change start + layout.size ≤ program.arena.cap at fits
      dsimp only
      rw [← same]
      refine ⟨⟨fun impossible => (by cases impossible), ?_⟩, fun impossible => (by cases impossible)⟩
      intro tooMuch
      omega
  · intro act allowed
    rcases ends_run invariant act allowed with ⟨_, later, ran, _⟩
    exact ⟨(), later, ran, reachable.act act allowed ran⟩

/-! ## Marks -/

/-- The act leaves so many marks, the earliest ones, in place. -/
def Act.Leaves (count : Nat) : Act -> ArenaProgram P -> Prop
  | .reset, _ => False
  | .rewind skipped, program => skipped + count < program.marks.length
  | _, _ => True

/-- A run that leaves so many marks in place. -/
inductive Within (count : Nat) : ArenaProgram P -> ArenaProgram P -> Prop
  | refl (program : ArenaProgram P) : Within count program program
  | act {program later final : ArenaProgram P} (within : Within count program later) (act : Act)
      (allowed : act.Allowed later) (leaves : act.Leaves count later)
      (ran : act.run later = some ((), final)) : Within count program final

/-- What has become of a program whose marks all were left in place. -/
structure Since (program later : ArenaProgram P) (data : Nat) : Prop where
  invariant : Invariant later data
  arena : exists offset floor,
    later.arena = { program.arena with offset := offset, floor := floor }
  next : program.next ≤ later.next
  marks : exists inner, later.marks = inner ++ program.marks ∧
    forall mark, mark ∈ inner -> program.next ≤ mark.2
  blocks : forall block, block ∈ program.blocks -> exists after, after ∈ later.blocks ∧
    Carries (data + program.arena.floor ≤ block.ptr) block after

omit [HasBytes P] in
/-- The floor only rises by marks. -/
theorem Floors.rise {low high : Nat} {inner marks : List (ArenaMark × Nat)}
    (floors : Floors high (inner ++ marks)) (below : Floors low marks) : low ≤ high := by
  induction inner generalizing high with
  | nil =>
      cases marks with
      | nil => exact Nat.le_of_eq (below.trans floors.symm)
      | cons mark rest => exact Nat.le_of_eq (below.1.trans floors.1.symm)
  | cons mark inner ih =>
      have step := ih floors.2.2
      have same := floors.1
      have lower := floors.2.1
      omega

omit [HasBytes P] in
theorem Since.step (since : Since program later data) (invariant : Invariant program data) {act : Act}
    (onward : Onward later final data act) (leaves : act.Leaves program.marks.length later) :
    Since program final data := by
  rcases since.marks with ⟨inner, split_, recent⟩
  have floors := since.invariant.floors
  rw [split_] at floors
  have rise := floors.rise invariant.floors
  refine ⟨onward.invariant, ?_, Nat.le_trans since.next onward.next, ?_, ?_⟩
  · rcases since.arena with ⟨_, _, first⟩
    rcases onward.arena with ⟨offset, floor, second⟩
    exact ⟨offset, floor, by rw [second, first]⟩
  · have remarks := onward.marks
    generalize final.marks = marks at remarks
    cases remarks with
    | same => exact ⟨inner, split_, recent⟩
    | taken saved =>
        refine ⟨(saved, later.next) :: inner, by rw [split_]; rfl, ?_⟩
        intro mark inside
        rcases List.mem_cons.mp inside with rfl | before
        · exact since.next
        · exact recent mark before
    | rewound skipped =>
        have inside : skipped + program.marks.length < later.marks.length := leaves
        rw [split_, List.length_append] at inside
        refine ⟨inner.drop (skipped + 1), ?_, fun mark there => recent mark (List.mem_of_mem_drop there)⟩
        rw [split_, List.drop_append_of_le_length (by omega)]
    | reset => exact absurd leaves id
  · intro block inside
    rcases since.blocks block inside with ⟨mid, there, carried⟩
    have early := invariant.recent block inside
    rcases onward.blocks mid there with gone | ⟨after, member, carries⟩
    · rcases gone with rfl | ⟨skipped, mark, rfl, at_, late⟩
      · exact absurd leaves id
      · have within : skipped + program.marks.length < later.marks.length := leaves
        rw [split_, List.length_append] at within
        rw [split_, List.getElem?_append_left (by omega)] at at_
        have fresh := recent mark (List.mem_of_getElem? at_)
        have serial := carried.serial
        omega
    · refine ⟨after, member, carries.serial.trans carried.serial, carries.ptr.trans carried.ptr,
        carries.align.trans carried.align, ?_⟩
      have ptr := carried.ptr
      rcases carries.size with less | high
      · rcases carried.size with lesser | high
        · exact Or.inl (Nat.le_trans less lesser)
        · exact Or.inr high
      · refine Or.inr ?_
        omega

theorem Within.since {count : Nat} (within : Within count program later) (invariant : Invariant program data)
    (all : count = program.marks.length) : Since program later data := by
  subst all
  induction within with
  | refl =>
      exact ⟨invariant, ⟨_, _, rfl⟩, Nat.le_refl _, ⟨[], rfl, fun _ inside => absurd inside List.not_mem_nil⟩,
        fun block inside => ⟨block, inside, Carries.refl block⟩⟩
  | act _ act allowed leaves ran ih =>
      have since := ih
      exact since.step invariant ((ends_run since.invariant act allowed).of_eq ran) leaves

theorem Within.reachable {count : Nat} (within : Within count program later)
    (reachable : Reachable program) : Reachable later := by
  induction within with
  | refl => exact reachable
  | act _ act allowed _ ran ih => exact ih.act act allowed ran

/-- After a mark and any run that leaves it in place, the arena can be rewound to it:
the offset and the floor are those before the mark, the blocks from before it lie
before the cursor, and no block handed out after the rewind overlaps one of them. -/
theorem Reachable.mark_protects (reachable : Reachable program) {start : ArenaProgram P}
    (taken : Act.mark.run program = some ((), start))
    (run : Within (program.marks.length + 1) start later) :
    exists data skipped mark, program.arena.data = some data ∧
      mark.offset = program.arena.offset ∧ later.marks[skipped]? = some (mark, program.next) ∧
      mark.offset ≤ later.arena.offset ∧
      Ends (Act.rewind skipped).run later fun _ back =>
        Reachable back ∧ back.arena = program.arena ∧ back.marks = program.marks ∧
        (forall block, block ∈ program.blocks ->
          block.region.Within ⟨data, back.arena.offset⟩ ∧
          exists kept, kept ∈ back.blocks ∧ kept.serial = block.serial ∧ kept.ptr = block.ptr ∧
            kept.layout.size ≤ block.layout.size) ∧
        forall final, Within program.marks.length back final -> forall block, block ∈ back.blocks ->
          exists kept, kept ∈ final.blocks ∧ kept.serial = block.serial ∧ kept.ptr = block.ptr ∧
            forall fresh, fresh ∈ final.blocks -> back.next ≤ fresh.serial ->
              fresh.region.Apart kept.region := by
  rcases reachable.invariant with ⟨data, invariant⟩
  have marking : Ends (Act.run .mark) program fun _ after => after = _ :=
    (ends_mark invariant).mpr rfl
  have marked := marking.of_eq taken
  subst marked
  have since := run.since invariant.marked rfl
  rcases since.marks with ⟨inner, split_, recent⟩
  have at_ : later.marks[inner.length]? =
      some (⟨program.arena.offset, program.arena.floor⟩, program.next) := by
    rw [split_, List.getElem?_append_right (Nat.le_refl _), Nat.sub_self]
    rfl
  have low := Nat.le_trans (since.invariant.floors.le (List.mem_of_getElem? at_))
    since.invariant.live.floor
  refine ⟨data, inner.length, _, invariant.live.data_eq, rfl, at_, low, ?_⟩
  have allowed : (Act.rewind inner.length).Allowed later := (List.getElem?_eq_some_iff.mp at_).1
  have went := ends_run since.invariant (.rewind inner.length) allowed
  rcases went with ⟨_, back, ran, onward⟩
  refine ⟨(), back, ran, (run.reachable (reachable.act .mark trivial taken)).act _ allowed ran, ?_⟩
  have rewinding : Ends (Act.run (.rewind inner.length)) later fun _ after => after = _ :=
    (ends_rewind since.invariant at_).mpr rfl
  have exact_ := rewinding.of_eq ran
  have arena : back.arena = program.arena := by
    rcases since.arena with ⟨_, _, same⟩
    rw [exact_]
    change { later.arena with offset := program.arena.offset, floor := program.arena.floor } = _
    rw [same]
    rfl
  have marks : back.marks = program.marks := by
    rw [exact_]
    change later.marks.drop (inner.length + 1) = program.marks
    rw [split_, ← List.drop_drop, List.drop_left]
    rfl
  refine ⟨arena, marks, ?_, ?_⟩
  · intro block inside
    have placed := invariant.placed block inside
    refine ⟨⟨placed.above, by rw [arena]; exact placed.inside⟩, ?_⟩
    rcases since.blocks block inside with ⟨kept, there, carries⟩
    refine ⟨kept, ?_, carries.serial, carries.ptr, ?_⟩
    · rw [exact_]
      refine List.mem_filter.mpr ⟨there, decide_eq_true ?_⟩
      rw [carries.serial]
      exact invariant.recent block inside
    · refine carries.size.resolve_right fun high => ?_
      -- a block from before the mark lies below the floor that it set
      have inside_ := placed.inside
      have some_ := placed.some_
      unfold ArenaBlock.stop at inside_
      change data + program.arena.offset ≤ block.ptr at high
      omega
  · intro final within block inside
    have after := within.since onward.invariant (by rw [marks])
    rcases after.blocks block inside with ⟨kept, there, carries⟩
    refine ⟨kept, there, carries.serial, carries.ptr, ?_⟩
    intro fresh member late
    apply after.invariant.apart member there
    have early := onward.invariant.recent block inside
    have serial := carries.serial
    omega

/-! ## A buffer of one page -/

/-- An arena over a buffer, with one block of 24 bytes. -/
def paged : ArenaProgram Bytes where
  world := ⟨{ Arena.fill none 4096 4096 with offset := 24 }, fun _ => 0⟩
  blocks := [⟨0, 4096, ⟨24, 8⟩, true⟩]
  marks := []
  next := 1

/-- The page after a mark and 64 bytes more. -/
def scratch : ArenaProgram Bytes where
  world := ⟨{ Arena.fill none 4096 4096 with offset := 128, floor := 24 }, fun _ => 0⟩
  blocks := [⟨0, 4096, ⟨24, 8⟩, true⟩, ⟨1, 4160, ⟨64, 64⟩, true⟩]
  marks := [(⟨24, 0⟩, 1)]
  next := 2

theorem paged_reachable : Reachable paged := by
  have made : Reachable (⟨⟨Arena.fill none 4096 4096, fun _ => 0⟩, [], [], 0⟩ : ArenaProgram Bytes) :=
    .initBuf (show Arena.initBuf 4096 4096 (fun _ => 0 : Bytes) = some (_, _) from rfl) (by decide)
  exact made.act (.alloc ⟨24, 8⟩) ⟨by decide, by decide, by decide⟩ rfl

theorem scratch_reachable : Reachable scratch := by
  have marked : Reachable { scratch with
      world := { scratch.world with ctx := { scratch.arena with offset := 24 } }
      blocks := [⟨0, 4096, ⟨24, 8⟩, true⟩]
      next := 1 } := paged_reachable.act .mark trivial rfl
  exact marked.act (.alloc ⟨64, 64⟩) ⟨by decide, by decide, by decide⟩ rfl

/-- The two blocks lie apart, on their alignments, and what is left of the page is too little for 4000 bytes. -/
theorem Reachable.blocks_apart_scratch : Reachable scratch ∧ Region.Apart ⟨4096, 24⟩ ⟨4160, 64⟩ ∧ 64 ∣ 4160 ∧
    Ends (AlVtable.allocate (Arena.toAl Bytes) ⟨4000, 8⟩) scratch.world fun ptr later =>
      ptr = none ∧ later = scratch.world := by
  rcases Reachable.blocks_apart scratch_reachable with ⟨data, here, _, _, placed, apart, refused, _⟩
  refine ⟨scratch_reachable, List.rel_of_pairwise_cons apart List.mem_cons_self, ?_, ?_⟩
  · exact (placed ⟨1, 4160, ⟨64, 64⟩, true⟩ (List.mem_cons_of_mem _ List.mem_cons_self)).2
  · refine (refused ⟨4000, 8⟩ ⟨by decide, by decide, by decide⟩ (by decide)).mono ?_
    rintro ptr later ⟨exactly, unchanged⟩
    have none_ : ptr = none := by
      refine exactly.mpr (Or.inr (Or.inr ?_))
      change 4096 < 128 + alignPad (data + 128) 8 + 4000
      omega
    exact ⟨none_, unchanged none_⟩

theorem Reachable.mark_protects_scratch : exists skipped,
    Ends (Act.rewind skipped).run scratch fun _ back => back.arena = paged.arena := by
  have start : Within 1 _ { scratch with
      world := { scratch.world with ctx := { scratch.arena with offset := 24 } }
      blocks := [⟨0, 4096, ⟨24, 8⟩, true⟩]
      next := 1 } := .refl _
  have run : Within 1 _ scratch :=
    start.act (.alloc ⟨64, 64⟩) ⟨by decide, by decide, by decide⟩ trivial rfl
  rcases Reachable.mark_protects paged_reachable rfl run with ⟨_, skipped, _, _, _, _, _, ends⟩
  exact ⟨skipped, ends.mono fun _ _ after => after.2.1⟩

end ArenaProgram
end TerseDsa
