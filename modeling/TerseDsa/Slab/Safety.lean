import TerseDsa.Slab.Hooks

namespace TerseDsa

open Foundation Run AlVtable

/-!
# Safety of the slab

However a program takes, resizes and gives back blocks of a slab, and whatever
the parent refuses, the blocks lie apart, and in the end every chunk goes back.
-/

namespace SlabProgram

open Slab

variable {program : SlabProgram} {blocks rest : List SlabBlock} {carved : List (Nat × Nat)}
  {chunks : List SlabChunk} {frees : Nat -> List Nat} {others : List (Nat × Layout)}
  {block : SlabBlock} {layout : Layout} {slab : Slab Parent} {parent : Parent} {ptr : Nat}

theorem ends_call {α : Type} {run : Run (World (Slab Parent) Parent) α} {post : α -> SlabProgram -> Prop} :
    Ends (call run) program post <->
      Ends run program.world fun a world => post a { program with world := world } :=
  ends_zoom

theorem ends_lookUp (holds : Act.Holds ptr program) {post : SlabBlock -> SlabProgram -> Prop}
    (found : forall block, block ∈ program.blocks -> block.ptr = ptr -> post block program) :
    Ends (lookUp ptr) program post := by
  rcases holds with ⟨block, inside, same⟩
  simp only [lookUp, ends_bind, Run.ends_get]
  refine ends_demand_find ⟨block, inside, ?_⟩ fun entry member is_ => found entry member (beq_iff_eq.mp is_)
  exact beq_iff_eq.mpr same

/-- The books in which the block comes first. -/
theorem Invariant.foremost (invariant : Invariant ⟨⟨slab, parent⟩, blocks, carved⟩ others chunks frees)
    (inside : block ∈ blocks) :
    Invariant ⟨⟨slab, parent⟩, block :: blocks.erase block, carved⟩ others chunks frees :=
  invariant.perm (List.perm_cons_erase inside)

/-- Books for the blocks in another order are books for the blocks. -/
theorem Valid.back {world : World (Slab Parent) Parent} (inside : block ∈ blocks)
    (valid : Valid others ⟨world, block :: blocks.erase block, carved⟩) :
    Valid others ⟨world, blocks, carved⟩ := by
  rcases valid with ⟨chunks, frees, invariant⟩
  exact ⟨chunks, frees, invariant.perm (List.perm_cons_erase inside).symm⟩

theorem ends_enter {world : World (Slab Parent) Parent} {addr : Nat}
    (valid : Valid others ⟨world, ⟨addr, layout⟩ :: blocks, noted slab addr layout carved⟩) :
    Ends (enter slab (some addr) layout) ⟨world, blocks, carved⟩ fun _ later => Valid others later := by
  simp only [enter, ends_modify]
  exact valid

/-! ## Acts -/

/-- An act that callers may make ends, and the books can be kept. -/
theorem ends_run (valid : Valid others program) (act : Act) (allowed : act.Allowed program) :
    Ends act.run program fun _ later => Valid others later := by
  rcases program with ⟨⟨slab, parent⟩, blocks, carved⟩
  rcases valid with ⟨chunks, frees, invariant⟩
  cases act with
  | alloc layout =>
      simp only [Act.run, ends_bind, Run.ends_get, ends_call]
      apply ends_allocate invariant allowed
      · exact fun world _ valid => (ends_pure _ _ _).mpr valid
      · exact fun _ addr world valid => ends_enter valid
  | allocZeroed layout =>
      simp only [Act.run, ends_bind, Run.ends_get, ends_call]
      apply ends_allocateZeroed invariant allowed
      · exact fun world valid => (ends_pure _ _ _).mpr valid
      · exact fun addr world valid => ends_enter valid
  | resize ptr newSize =>
      rcases allowed with ⟨holds, wanted, fits⟩
      simp only [Act.run, ends_bind]
      apply ends_lookUp holds
      intro block inside same
      subst same
      rw [ends_call]
      apply ends_resizeInPlace (invariant.foremost inside) wanted fits
      · intro later valid _
        simp only [Bool.false_eq_true, if_false, ends_pure]
        exact valid.back inside
      · intro later valid
        simp only [if_true, exchange, ends_modify]
        exact valid
  | remap ptr newSize =>
      rcases allowed with ⟨holds, wanted, fits⟩
      simp only [Act.run, ends_bind, Run.ends_get]
      apply ends_lookUp holds
      intro block inside same
      subst same
      rw [ends_call]
      apply ends_moveByHook (invariant.foremost inside) wanted fits
      · intro later valid
        simp only [ends_pure]
        exact valid.back inside
      · intro addr later large valid
        simp only [ends_bind, drop, ends_modify]
        have noted_ : noted slab addr ⟨newSize, block.layout.align⟩ carved = carved :=
          if_neg fun both => Nat.ne_of_lt both.1 large
        rw [← noted_] at valid
        exact ends_enter valid
  | realloc ptr newSize =>
      rcases allowed with ⟨holds, fits⟩
      simp only [Act.run, ends_bind, Run.ends_get]
      apply ends_lookUp holds
      intro block inside same
      subst same
      rw [ends_call]
      apply ends_reallocate (invariant.foremost inside) fits
      · intro nothing world valid
        simp only [if_pos nothing, drop, ends_modify]
        exact valid
      · intro something world valid
        simp only [if_neg something, ends_pure]
        exact valid.back inside
      · intro world valid
        simp only [if_true, exchange, ends_modify]
        exact valid
      · intro addr world valid different
        simp only [if_neg different, ends_bind, drop, ends_modify]
        exact ends_enter valid
  | reallocNull align newSize =>
      have isAlign : Layout.isAlign align = true := allowed.isAlign
      simp only [Act.run, ends_bind, Run.ends_get, ends_call, reallocate, ends_require, isAlign,
        true_and]
      by_cases nothing : newSize = 0
      · simp only [if_pos nothing, deallocate, ends_bind, ends_require, true_or, isAlign, true_and,
          ends_pure, enter]
        exact ⟨chunks, frees, invariant⟩
      · simp only [if_neg nothing]
        apply ends_allocate invariant allowed
        · exact fun world _ valid => (ends_pure _ _ _).mpr valid
        · exact fun _ addr world valid => ends_enter valid
  | dealloc ptr =>
      simp only [Act.run, ends_bind]
      apply ends_lookUp allowed
      intro block inside same
      subst same
      rw [ends_call]
      apply ends_deallocate (invariant.foremost inside)
      intro world valid _
      simp only [drop, ends_modify]
      exact valid
  | write addr byte =>
      rcases allowed with ⟨block, inside, covers⟩
      simp only [Act.run, ends_call, setBytes, ends_modify]
      have within : Region.Within ⟨addr, 1⟩ block.region := by
        unfold Region.Covers Region.stop at covers
        unfold Region.Within Region.stop
        dsimp only
        omega
      exact ⟨chunks, frees, invariant.written inside (within.trans SlabBlock.region_within) _⟩

/-! ## The end -/

/-- Every chunk goes back to the parent, and nothing else. -/
theorem ends_releaseChunks {bound : Nat} {chunk : Option Addr} (enough : chunks.length ≤ bound)
    (live : forall chunk, chunk ∈ chunks -> chunk.Live)
    (apart : (chunks.map SlabChunk.entry).Pairwise fun left right =>
      (Parent.region left).Apart (Parent.region right))
    (threaded : Threaded parent.bytes chunk (chunks.map SlabChunk.link))
    (out : parent.out.Perm (chunks.map SlabChunk.entry ++ others))
    {post : Unit -> Parent -> Prop}
    (done : forall later, later.out.Perm others -> post () later) :
    Ends (releaseChunks Parent.toAl bound chunk) parent post := by
  unfold releaseChunks
  -- the chunks still to come are threaded from the loop's variable on
  refine ends_loop (n := chunks.length) (fun n chunk parent => exists chunks, n = List.length chunks ∧
    (forall chunk, chunk ∈ chunks -> chunk.Live) ∧
    ((chunks.map SlabChunk.entry).Pairwise fun left right =>
      (Parent.region left).Apart (Parent.region right)) ∧
    Threaded parent.bytes chunk (chunks.map SlabChunk.link) ∧
    parent.out.Perm (chunks.map SlabChunk.entry ++ others)) ?_
    ⟨chunks, rfl, live, apart, threaded, out⟩ (Nat.lt_succ_of_le enough)
  rintro n chunk parent ⟨chunks, rfl, live, apart, threaded, out⟩
  have head := threaded.head_eq
  cases chunks with
  | nil =>
      have none_ : chunk = none := head
      subst none_
      simp only [ends_pure]
      exact done parent out
  | cons first rest =>
      have some_ : chunk = some first.link := head
      subst some_
      have start : first.link - chunkRoom = first.start := Nat.add_sub_cancel _ _
      have isOut : (first.start, chunkLayout) ∈ parent.out := out.mem_iff.mpr List.mem_cons_self
      rw [List.map_cons] at apart threaded out
      rw [List.pairwise_cons] at apart
      simp only [readLink, ends_bind, Run.ends_get, ends_pure, start]
      apply Parent.ends_deallocate (by decide) (by decide) isOut
      intro later gone keeps
      refine ⟨rest.length, Nat.lt_succ_self _, rest, rfl,
        fun chunk inside => live chunk (List.mem_cons_of_mem _ inside), apart.2, ?_, ?_⟩
      · refine threaded.pop.frame keeps ?_
        intro node inside
        rcases List.mem_map.mp inside with ⟨other, there, rfl⟩
        exact (apart.1 _ (List.mem_map_of_mem there)).symm.within SlabChunk.link_within
          (Region.Within.refl _)
      · have erased := out.erase first.entry
        rw [List.cons_append, List.erase_cons_head] at erased
        rw [gone]
        exact erased

/-- The end of the slab: every chunk is given back once, and all else stays out. -/
theorem ends_deinit (invariant : Invariant ⟨⟨slab, parent⟩, blocks, carved⟩ others chunks frees)
    {post : Unit -> World (Slab Parent) Parent -> Prop}
    (done : forall later, later.out.Perm ((larges blocks).map SlabBlock.entry ++ others) ->
      post () ⟨Slab.inert, later⟩) :
    Ends Slab.deinit ⟨slab, parent⟩ post := by
  have parent_eq : slab.parent = some Parent.toAl := invariant.parent
  have count : slab.chunkCount = chunks.length := invariant.count
  have out := invariant.out
  unfold taken at out
  rw [List.append_assoc] at out
  simp only [Slab.deinit, ends_bind, World.ends_self, parent_eq, World.ends_under, World.ends_setSelf]
  apply ends_releaseChunks (Nat.le_of_eq count.symm) invariant.books.live
    (List.pairwise_append.mp invariant.books.apart).1 invariant.threaded out
  exact done

/-! ## Reachable programs -/

/-- A program that made a slab over the parent, and went on from there. -/
inductive Reachable (parent : Parent) : SlabProgram -> Prop
  | init : Reachable parent ⟨⟨Slab.init Parent.toAl, parent⟩, [], []⟩
  | act {program later : SlabProgram} (reachable : Reachable parent program) (act : Act)
      (allowed : act.Allowed program) (ran : act.run program = some ((), later)) :
      Reachable parent later

theorem Reachable.valid (reachable : Reachable parent program) : Valid parent.out program := by
  induction reachable with
  | init =>
      refine ⟨[], fun _ => [], ⟨?_, List.Pairwise.nil, List.Perm.nil, ?_, List.nodup_nil, ?_, ?_⟩, rfl,
        Threaded.nil, rfl, List.Perm.refl _, ?_, ?_, rfl, rfl⟩
      · exact fun _ inside => absurd inside List.not_mem_nil
      · exact fun _ _ => List.Perm.nil
      · exact fun _ inside => absurd inside List.not_mem_nil
      · exact fun _ inside => absurd inside List.not_mem_nil
      · exact fun _ _ => rfl
      · exact fun _ _ => Threaded.nil
  | act reachable act allowed ran ih =>
      exact (ends_run ih act allowed).of_eq ran

/-- In whatever program that keeps to its blocks: the blocks held lie apart from
one another and from the links of the chunks, within memory that the parent has
out, on the alignment asked for.  What is free in a class was carved for that
class, once, and is neither held nor free elsewhere; a small block goes back to
the class it was carved for.  The counts are those of the blocks, and at the end
the parent gets every chunk back once. -/
theorem Reachable.serves_blocks (reachable : Reachable parent program) :
    (program.blocks.Pairwise fun left right => left.region.Apart right.region) ∧
      (forall block, block ∈ program.blocks -> block.layout.align ∣ block.ptr) ∧
      (forall block, block ∈ program.blocks -> exists entry, entry ∈ program.parent.out ∧
        block.region.Within (Parent.region entry)) ∧
      program.slab.smallBlocks = (program.blocks.filter fun block => classOf block.layout < classCount).length ∧
      program.slab.largeBlocks = (program.blocks.filter fun block => classOf block.layout = classCount).length ∧
      (exists (links : List Nat) (frees : Nat -> List Nat),
        Threaded program.parent.bytes program.slab.chunks links ∧
        program.parent.out.Perm (links.map (fun link => (link - chunkRoom, chunkLayout)) ++
          (larges program.blocks).map SlabBlock.entry ++ parent.out) ∧
        (forall block, block ∈ program.blocks -> forall link, link ∈ links ->
          block.region.Apart ⟨link, Bytes.wordSize⟩) ∧
        (forall idx, idx < classCount ->
          Threaded program.parent.bytes (program.slab.classes idx).freeHead (frees idx) ∧
          (frees idx).Nodup ∧
          forall addr, addr ∈ frees idx -> (addr, idx) ∈ program.carved ∧
            (forall block, block ∈ program.blocks -> addr ≠ block.ptr) ∧
            forall other, other < classCount -> addr ∈ frees other -> other = idx)) ∧
      (program.carved.map Prod.fst).Nodup ∧
      (forall block, block ∈ program.blocks -> classOf block.layout < classCount ->
        (block.ptr, classOf block.layout) ∈ program.carved ∧
        Ends (deallocate al (some block.ptr) block.layout) program.world fun _ later =>
          forall cls, (block.ptr, cls) ∈ program.carved -> (later.ctx.classes cls).freeHead = some block.ptr) ∧
      (Ends Slab.deinit program.world fun _ later => later.ctx = Slab.inert ∧
        later.below.out.Perm ((larges program.blocks).map SlabBlock.entry ++ parent.out)) ∧
      forall act : Act, act.Allowed program ->
        Ends act.run program fun _ later => Reachable parent later := by
  have acts : forall act : Act, act.Allowed program ->
      Ends act.run program fun _ later => Reachable parent later := by
    intro act allowed
    rcases ends_run reachable.valid act allowed with ⟨_, later, ran, _⟩
    exact ⟨(), later, ran, reachable.act act allowed ran⟩
  have valid := reachable.valid
  rcases program with ⟨⟨slab, below⟩, blocks, carved⟩
  rcases valid with ⟨chunks, frees, invariant⟩
  have books : Books blocks carved chunks frees := invariant.books
  refine ⟨?_, books.aligned, ?_, ?_, ?_, ⟨chunks.map SlabChunk.link, frees, invariant.threaded, ?_, ?_, ?_⟩,
    books.nodup_carved, ?_, ?_, acts⟩
  · refine (List.pairwise_map.mp books.distinct).imp_of_mem ?_
    intro left right held also different
    have not_ : left ≠ right := fun same => different (congrArg SlabBlock.ptr same)
    exact (books.rooms_apart held also not_).within SlabBlock.region_within SlabBlock.region_within
  · intro block held
    by_cases large : block.large = true
    · exact ⟨block.entry, invariant.taken_mem (List.mem_append_right _
        (List.mem_map_of_mem (mem_larges.mpr ⟨held, large⟩))), Region.Within.refl _⟩
    · have small := SlabBlock.small_iff.mp (Bool.eq_false_iff.mpr large)
      have within : block.region.Within block.room := SlabBlock.region_within
      rw [SlabBlock.room_of_small small] at within
      rcases books.mem_carved.mp (books.held_mem held small) with ⟨chunk, there, cls, mine⟩
      have inside := SlabChunk.cell_within_entry (books.live chunk there) mine
      rw [cls] at inside
      exact ⟨chunk.entry, invariant.taken_mem (List.mem_append_left _ (List.mem_map_of_mem there)),
        within.trans inside⟩
  · refine invariant.smallCount.trans (congrArg List.length (List.filter_congr ?_))
    intro block _
    rw [← Bool.coe_iff_coe, Bool.not_eq_true', SlabBlock.small_iff, decide_eq_true_eq]
  · refine invariant.largeCount.trans (congrArg List.length (List.filter_congr ?_))
    intro block _
    rw [← Bool.coe_iff_coe, SlabBlock.large_iff, decide_eq_true_eq]
  · have entries : (chunks.map SlabChunk.link).map (fun link => (link - chunkRoom, chunkLayout)) =
        chunks.map SlabChunk.entry := by
      rw [List.map_map]
      refine List.map_congr_left fun chunk _ => ?_
      exact congrArg (·, chunkLayout) (Nat.add_sub_cancel _ _)
    rw [entries]
    exact invariant.out
  · intro block held link inside
    rcases List.mem_map.mp inside with ⟨chunk, there, rfl⟩
    exact (books.link_apart_room there held).symm.within SlabBlock.region_within (Region.Within.refl _)
  · intro idx cls
    refine ⟨invariant.free idx cls, (invariant.free idx cls).nodup, ?_⟩
    intro addr inside
    exact ⟨books.free_mem cls inside, fun block held => books.free_ne cls inside held,
      fun other also there => books.free_cls also there cls inside⟩
  · intro block held small
    have mine := books.held_mem held small
    refine ⟨mine, ends_deallocate (invariant.foremost held) ?_⟩
    intro world _ head cls also
    rw [books.carved_cls also mine]
    exact head small
  · exact ends_deinit invariant fun later out => ⟨rfl, out⟩

/-! ## A small block and a large one -/

/-- A parent that answers the request `n` with the address `8192 * (n + 1)`. -/
def steppedParent : Parent := ⟨fun _ => 0, [], fun n => ⟨some (8192 * (n + 1)), true, fun _ => 0⟩, 0⟩

/-- The program after an act, if that ended. -/
def after (program : SlabProgram) (act : Act) : SlabProgram := ((act.run program).map Prod.snd).getD program

theorem Reachable.after (reachable : Reachable parent program) (act : Act) (allowed : act.Allowed program) :
    Reachable parent (program.after act) := by
  rcases ends_run reachable.valid act allowed with ⟨_, later, ran, _⟩
  have same : program.after act = later := by
    rw [SlabProgram.after, ran]
    rfl
  rw [same]
  exact reachable.act act allowed ran

/-- Two blocks of one class, of 40 and of 33 bytes, and one of 600. -/
def served : SlabProgram :=
  (((⟨⟨Slab.init Parent.toAl, steppedParent⟩, [], []⟩ : SlabProgram).after (.alloc ⟨40, 8⟩)).after
    (.alloc ⟨33, 8⟩)).after (.alloc ⟨600, 16⟩)

theorem served_reachable : Reachable steppedParent served :=
  ((Reachable.init.after (.alloc ⟨40, 8⟩) ⟨by decide, by decide, by decide⟩).after (.alloc ⟨33, 8⟩)
    ⟨by decide, by decide, by decide⟩).after (.alloc ⟨600, 16⟩) ⟨by decide, by decide, by decide⟩

/-- The three blocks lie apart and are counted, and so are two when the first was given back. -/
theorem Reachable.serves_blocks_stepped : Reachable steppedParent served ∧
    served.blocks = [⟨16384, ⟨600, 16⟩⟩, ⟨8240, ⟨33, 8⟩⟩, ⟨8192, ⟨40, 8⟩⟩] ∧
    (served.blocks.Pairwise fun left right => left.region.Apart right.region) ∧
    served.slab.smallBlocks = 2 ∧ served.slab.largeBlocks = 1 ∧
    Reachable steppedParent (served.after (.dealloc 8192)) ∧ (served.after (.dealloc 8192)).slab.smallBlocks = 1 := by
  have three : served.blocks = [⟨16384, ⟨600, 16⟩⟩, ⟨8240, ⟨33, 8⟩⟩, ⟨8192, ⟨40, 8⟩⟩] := by decide +kernel
  have two : (served.after (.dealloc 8192)).blocks = [⟨16384, ⟨600, 16⟩⟩, ⟨8240, ⟨33, 8⟩⟩] := by decide +kernel
  have first : (⟨8192, ⟨40, 8⟩⟩ : SlabBlock) ∈ served.blocks := by
    rw [three]
    decide
  have returned := served_reachable.after (.dealloc 8192) ⟨_, first, rfl⟩
  rcases Reachable.serves_blocks served_reachable with ⟨apart, _, _, small, large, _⟩
  rcases Reachable.serves_blocks returned with ⟨_, _, _, less, _⟩
  rw [three] at small large
  rw [two] at less
  exact ⟨served_reachable, three, apart, small, large, returned, less⟩

end SlabProgram
end TerseDsa
