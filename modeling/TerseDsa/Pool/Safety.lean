import TerseDsa.Pool.Program

namespace TerseDsa

open Foundation Run AlVtable

/-!
# Safety of the pool

However a program takes and gives back blocks of a pool and writes into them,
the free list stays whole, and no two blocks overlap.
-/

namespace PoolProgram

variable {P : Type} [HasBytes P] {program : PoolProgram P} {data ptr newSize : Nat} {memory : Region}
  {free : List Nat} {layout : Layout} {block : PoolBlock}

omit [HasBytes P] in
theorem ends_call {α : Type} {run : Run (World (Pool P) P) α} {post : α -> PoolProgram P -> Prop} :
    Ends (call run) program post <->
      Ends run program.world fun a world => post a { program with world := world } :=
  ends_zoom

theorem ends_assertPool (invariant : Invariant program data memory free) {S : Type} {s : S}
    {post : Unit -> S -> Prop} :
    Ends (Pool.assertPool program.world.ctx) s post <-> post () s := by
  unfold Pool.assertPool
  rw [ends_require]
  exact ⟨And.right, fun after => ⟨invariant.asserts, after⟩⟩

omit [HasBytes P] in
theorem ends_lookUp (holds : Act.Holds ptr program) {post : PoolBlock -> PoolProgram P -> Prop}
    (found : forall block, block ∈ program.blocks -> block.ptr = ptr -> post block program) :
    Ends (lookUp ptr) program post := by
  rcases holds with ⟨block, inside, same⟩
  simp only [lookUp, ends_bind, Run.ends_get]
  refine ends_demand_find ⟨block, inside, ?_⟩ fun entry member is_ => found entry member (beq_iff_eq.mp is_)
  exact beq_iff_eq.mpr same

/-! ## Hooks -/

/-- The head of the free list is handed out, or nothing. -/
theorem ends_allocate (invariant : Invariant program data memory free) (asked : layout.Asked)
    (align : layout.align ≤ program.pool.blockAlign)
    {post : Option Addr -> World (Pool P) P -> Prop}
    (nothing : layout.size = 0 -> post none program.world)
    (refused : 0 < layout.size -> program.pool.blockSize < layout.size ∨ free = [] ->
      post none program.world)
    (granted : 0 < layout.size -> layout.size ≤ program.pool.blockSize -> forall node rest,
      free = node :: rest -> post (some node) { program.world with ctx := { program.pool with
        freeHead := (HasBytes.bytes program.world).link node, used := program.pool.used + 1 } }) :
    Ends (allocate (Pool.toAl P) layout) program.world post := by
  apply AlVtable.ends_allocate asked nothing
  intro some_
  have align' : layout.align ≤ program.world.ctx.blockAlign := align
  change Ends (Pool.alloc layout) program.world _
  simp only [Pool.alloc, ends_bind, World.ends_self, ends_assertPool invariant, ends_require,
    some_, align', true_and]
  by_cases large : layout.size > program.world.ctx.blockSize
  · simp only [if_pos large, ends_pure]
    exact ⟨fun _ impossible => (by cases impossible), refused some_ (Or.inl large)⟩
  · simp only [if_neg large]
    have head : program.world.ctx.freeHead = free.head? := invariant.threaded.head_eq
    cases free with
    | nil =>
        simp only [head, List.head?_nil, ends_pure]
        exact ⟨fun _ impossible => (by cases impossible), refused some_ (Or.inr rfl)⟩
    | cons node rest =>
        simp only [head, List.head?_cons, readLink, ends_bind, Run.ends_get, ends_pure,
          World.ends_setSelf]
        refine ⟨?_, granted some_ (Nat.le_of_not_lt large) node rest rfl⟩
        intro addr same
        cases same
        exact (Layout.isAlign_dvd_of_le asked.isAlign invariant.live.isAlign align).trans
          (invariant.live.aligned (invariant.free_mem List.mem_cons_self))

/-- A block that is held stays where it is, if the pool's blocks are large enough. -/
theorem ends_resizeInPlace (invariant : Invariant program data memory free)
    (inside : block ∈ program.blocks) (wanted : 0 < newSize)
    {post : Bool -> World (Pool P) P -> Prop} :
    Ends (resizeInPlace (Pool.toAl P) block.ptr block.layout newSize) program.world post <->
      post (decide (newSize ≤ program.pool.blockSize)) program.world := by
  have fits := invariant.fits block inside
  have size : block.layout.size ≤ program.world.ctx.blockSize := fits.size
  have align : block.layout.align ≤ program.world.ctx.blockAlign := fits.align
  have owns : Pool.ownsBlock program.world.ctx data block.ptr = true :=
    invariant.live.ownsBlock (invariant.held_mem inside)
  have data_eq : program.world.ctx.data = some data := invariant.live.data_eq
  simp only [resizeInPlace, Pool.toAl, Pool.resize, ends_bind, ends_require, fits.some_, wanted,
    fits.asked.isAlign, World.ends_self, ends_assertPool invariant, size, align, data_eq,
    ends_demand_some, owns, ends_pure, true_and, and_self]
  exact Iff.rfl

/-- A block that is held becomes the head of the free list. -/
theorem ends_deallocate (invariant : Invariant program data memory free)
    (inside : block ∈ program.blocks) {post : Unit -> World (Pool P) P -> Prop} :
    Ends (deallocate (Pool.toAl P) (some block.ptr) block.layout) program.world post <->
      post () ⟨{ program.pool with freeHead := some block.ptr, used := program.pool.used - 1 },
        HasBytes.withBytes ((HasBytes.bytes program.world).setLink block.ptr program.pool.freeHead)
          program.world.below⟩ := by
  have fits := invariant.fits block inside
  have size : block.layout.size ≤ program.world.ctx.blockSize := fits.size
  have align : block.layout.align ≤ program.world.ctx.blockAlign := fits.align
  have owns : Pool.ownsBlock program.world.ctx data block.ptr = true :=
    invariant.live.ownsBlock (invariant.held_mem inside)
  have data_eq : program.world.ctx.data = some data := invariant.live.data_eq
  have used : 0 < program.world.ctx.used := by
    have same : program.world.ctx.used = program.blocks.length := invariant.used
    rw [same]
    exact List.length_pos_of_mem inside
  have other : some block.ptr ≠ program.world.ctx.freeHead := by
    intro same
    have head : program.world.ctx.freeHead = free.head? := invariant.threaded.head_eq
    rw [head] at same
    exact invariant.free_ne (List.mem_of_mem_head? same.symm) inside rfl
  simp only [deallocate, Pool.toAl, Pool.dealloc, ends_bind, ends_require, fits.some_, or_true,
    fits.asked.isAlign, World.ends_self, ends_assertPool invariant, size, align, data_eq,
    ends_demand_some, owns, used, other, ne_eq, not_false_eq_true, World.ends_under, Pool.pushFree,
    writeLink, ends_modify, ends_pure, World.ends_setSelf, true_and, and_self]
  rw [← data_eq]
  exact Iff.rfl

/-! ## Acts -/

/-- An act that callers may make ends, and keeps the free list whole. -/
theorem ends_run (invariant : Invariant program data memory free) (act : Act)
    (allowed : act.Allowed program) :
    Ends act.run program fun _ later => exists free, Invariant later data memory free := by
  have live := invariant.live
  cases act with
  | alloc layout =>
      rcases allowed with ⟨asked, align⟩
      have stay : Ends (pure () : Run (PoolProgram P) Unit) { program with world := program.world }
          fun _ later => exists free, Invariant later data memory free :=
        (ends_pure _ _ _).mpr ⟨free, invariant⟩
      simp only [Act.run, ends_bind, ends_call]
      apply ends_allocate invariant asked align
      · exact fun _ => stay
      · exact fun _ _ => stay
      · intro some_ size node rest split_
        subst split_
        have popped := invariant.threaded.pop
        simp only [ends_modify]
        refine ⟨rest, live.taken _ _, ?_, ?_, ?_, ?_⟩
        · exact popped
        · refine List.Perm.trans ?_ invariant.divided
          rw [List.map_append, List.map_singleton, ← List.append_assoc]
          exact List.perm_append_singleton _ _
        · change program.pool.used + 1 = _
          rw [invariant.used, List.length_append, List.length_singleton]
        · intro block inside
          rcases List.mem_append.mp inside with old | new
          · have fits := invariant.fits block old
            exact ⟨fits.asked, fits.some_, fits.size, fits.align⟩
          · cases List.mem_singleton.mp new
            exact ⟨asked, some_, size, align⟩
  | resize ptr newSize =>
      rcases allowed with ⟨holds, wanted, small⟩
      simp only [Act.run, ends_bind]
      apply ends_lookUp holds
      intro block inside same
      subst same
      rw [ends_call, ends_resizeInPlace invariant inside wanted]
      by_cases room : newSize ≤ program.pool.blockSize
      · simp only [decide_eq_true room, if_true, ends_modify]
        refine ⟨free, live, invariant.threaded, ?_, ?_, ?_⟩
        · refine List.Perm.trans (List.Perm.of_eq ?_) invariant.divided
          rw [List.map_map]
          congr 1
          apply List.map_congr_left
          intro other _
          by_cases same : other.ptr = block.ptr
          · rw [Function.comp, if_pos same]
            exact same.symm
          · rw [Function.comp, if_neg same]
        · rw [List.length_map]
          exact invariant.used
        · intro other member
          rcases List.mem_map.mp member with ⟨before, there, rfl⟩
          have fits := invariant.fits before there
          by_cases same : before.ptr = block.ptr
          · rw [if_pos same]
            exact ⟨⟨fits.asked.isAlign, small, fits.asked.align⟩, wanted, room, fits.align⟩
          · rw [if_neg same]
            exact fits
      · simp only [decide_eq_false room, Bool.false_eq_true, if_false, ends_pure]
        exact ⟨free, invariant⟩
  | dealloc ptr =>
      simp only [Act.run, ends_bind]
      apply ends_lookUp allowed
      intro block inside same
      subst same
      rw [ends_call, ends_deallocate invariant inside, ends_modify]
      rcases List.exists_of_eraseP (p := fun other => other.ptr == block.ptr) inside (beq_self_eq_true _)
        with ⟨found, front, back, _, isFound, split_, erased⟩
      have found_eq : found = block := by
        apply invariant.held_eq _ inside (beq_iff_eq.mp isFound)
        rw [split_]
        exact List.mem_append_right _ List.mem_cons_self
      subst found_eq
      refine ⟨found.ptr :: free, live.taken _ _, ?_, ?_, ?_, ?_⟩
      · change Threaded (HasBytes.bytes (HasBytes.withBytes _ program.world.below)) _ _
        rw [HasBytes.bytes_withBytes]
        apply invariant.threaded.push (live.linkable (invariant.held_mem inside))
        intro node free_
        exact live.apart (invariant.free_mem free_) (invariant.held_mem inside)
          (invariant.free_ne free_ inside) live.link_within live.link_within
      · refine List.Perm.trans ?_ invariant.divided
        change (found.ptr :: free ++ (program.blocks.eraseP _).map PoolBlock.ptr).Perm _
        rw [erased, split_]
        simp only [List.map_append, List.map_cons, List.cons_append, ← List.append_assoc]
        exact List.perm_middle.symm
      · change program.pool.used - 1 = (program.blocks.eraseP _).length
        rw [erased, invariant.used, split_]
        simp only [List.length_append, List.length_cons]
        omega
      · intro other member
        have fits := invariant.fits other (List.mem_of_mem_eraseP member)
        exact ⟨fits.asked, fits.some_, fits.size, fits.align⟩
  | write addr byte =>
      rcases allowed with ⟨block, inside, covers⟩
      simp only [Act.run, ends_call, setBytes, ends_modify]
      have keeps : Bytes.Keeps (HasBytes.bytes program.world)
          (HasBytes.bytes (HasBytes.withBytes ((HasBytes.bytes program.world).fill addr 1 byte)
            program.world)) ⟨addr, 1⟩ := by
        rw [HasBytes.bytes_withBytes]
        exact Bytes.keeps_overwrite _ _ _
      refine ⟨free, invariant.rewritten rfl keeps ?_⟩
      · intro node free_
        have size := (invariant.fits block inside).size
        apply live.apart (invariant.free_mem free_) (invariant.held_mem inside)
          (invariant.free_ne free_ inside) live.link_within
        unfold Region.Covers Region.stop at covers
        unfold Region.Within Region.stop
        dsimp only at covers ⊢
        omega
  | reset =>
      have taken : Pool.Live { program.world.ctx with used := 0 } data memory := live.taken 0 _
      simp only [Act.run, Pool.reset, ends_bind, ends_call, World.ends_self,
        ends_assertPool invariant, World.ends_under]
      apply Pool.ends_buildFreeList taken
      intro head later threaded
      simp only [World.ends_setSelf, ends_modify]
      refine ⟨_, live.taken 0 head, threaded, ?_, rfl,
        fun _ inside => absurd inside List.not_mem_nil⟩
      rw [List.map_nil, List.append_nil]
      exact List.Perm.refl _

/-! ## Reachable programs -/

/-- A program that made a pool in the memory given, and went on from there.  With
`tda_pool_init_cap` that is the block which the parent answers to the request for an
array of the raised blocks.  The memory lies in the address space. -/
inductive Reachable (memory : Region) : PoolProgram P -> Prop
  | initCap {before mid after : P} {blockCount : Nat} {block raised array : Layout} {parent : AlVtable P}
      {pool : Pool P} (asked : block.size < sizeRange ∧ block.align < sizeRange)
      (ran : Pool.initCap blockCount block parent before = some ((.ok, some pool), after))
      (up : Pool.ckdBlock block = some raised) (wanted : raised.ckdArray blockCount = some array)
      (given : allocate parent array before = some (some memory.start, mid)) (size : memory.size = array.size)
      (room : 0 < memory.start ∧ memory.stop < sizeRange) : Reachable memory ⟨⟨pool, after⟩, []⟩
  | initBuf {before after : P} {buf cap : Nat} {block : Layout} {pool : Pool P}
      (asked : block.size < sizeRange ∧ block.align < sizeRange)
      (ran : Pool.initBuf buf cap block before = some ((.ok, some pool), after))
      (given : memory = ⟨buf, cap⟩) (room : memory.stop < sizeRange) :
      Reachable memory ⟨⟨pool, after⟩, []⟩
  | act {program later : PoolProgram P} (reachable : Reachable memory program) (act : Act)
      (allowed : act.Allowed program) (ran : act.run program = some ((), later)) :
      Reachable memory later

/-- What the blocks of a pool are made to be. -/
structure Tiling (block : Layout) : Prop where
  word : Bytes.wordSize ≤ block.size
  isAlign : Layout.isAlign block.align = true
  align : block.align < sizeRange
  tiles : block.align ∣ block.size

theorem tiling_of_ckdBlock {block raised : Layout} (isAlign : Layout.isAlign block.align = true)
    (align : block.align < sizeRange) (up : Pool.ckdBlock block = some raised) : Tiling raised := by
  unfold Pool.ckdBlock at up
  rcases Option.map_eq_some_iff.mp up with ⟨size, rounded, rfl⟩
  have pointer : Layout.isAlign Layout.ofPointer.align = true := by decide
  have chosen : forall {align : Nat}, align = block.align ∨ align = Layout.ofPointer.align ->
      Layout.isAlign align = true ∧ align < sizeRange := by
    rintro _ (rfl | rfl)
    · exact ⟨isAlign, align⟩
    · exact ⟨pointer, by decide⟩
  have either : (if block.align > Layout.ofPointer.align then block.align else Layout.ofPointer.align) =
      block.align ∨ (if block.align > Layout.ofPointer.align then block.align
        else Layout.ofPointer.align) = Layout.ofPointer.align := by
    split
    · exact Or.inl rfl
    · exact Or.inr rfl
  rcases chosen either with ⟨good, small⟩
  rcases alignCkdUp_some good small rounded with ⟨multiple, atLeast, _, _⟩
  refine ⟨Nat.le_trans ?_ atLeast, good, small, multiple⟩
  change Layout.ofPointer.size ≤ _
  split <;> omega

theorem ends_fill {s : P} {parent : Option (AlVtable P)} {block : Layout} {blockCount : Nat}
    (tiling : Tiling block) (base : 0 < data) (on_ : block.align ∣ data)
    (room : data + block.size * blockCount < sizeRange) (some_ : 0 < blockCount)
    (inside : Region.Within ⟨data, block.size * blockCount⟩ memory) :
    Ends (Pool.fill parent data block blockCount) s fun pool later =>
      exists free, Invariant ⟨⟨pool, later⟩, []⟩ data memory free := by
  have size : 0 < block.size := Nat.lt_of_lt_of_le (by decide) tiling.word
  have isType : block.isType = true := by
    rw [Layout.isType, tiling.isAlign, decide_eq_true size,
      decide_eq_true (Nat.mod_eq_zero_of_dvd tiling.tiles)]
    rfl
  have live : Pool.Live ⟨parent, some data, block.size, block.align, blockCount, 0, none⟩ data memory :=
    ⟨rfl, base, room, some_, tiling.word, tiling.isAlign, tiling.align, tiling.tiles, on_, inside⟩
  simp only [Pool.fill, ends_bind, ends_require, isType,
    (alignMeets_iff tiling.isAlign).mpr on_, true_and]
  apply Pool.ends_buildFreeList live
  intro head later threaded
  refine ⟨_, live.taken 0 head, threaded, ?_, rfl, fun _ inside => absurd inside List.not_mem_nil⟩
  rw [List.map_nil, List.append_nil]
  exact List.Perm.refl _

/-- Threading the free list changes nothing else about a pool. -/
theorem ends_pushBelow_fields (pool : Pool P) (data : Addr) (idx : Nat) (s : P) :
    Ends (Pool.pushBelow pool data idx) s fun later _ =>
      exists head, later = { pool with freeHead := head } := by
  induction idx generalizing pool s with
  | zero =>
      simp only [Pool.pushBelow, ends_pure]
      exact ⟨pool.freeHead, rfl⟩
  | succ idx ih =>
      simp only [Pool.pushBelow, Pool.pushFree, writeLink, ends_bind, ends_modify, ends_pure]
      exact ih _ _

/-- What a pool that was filled was made over. -/
theorem filled {s after : P} {parent : Option (AlVtable P)} {block : Layout} {blockCount : Nat}
    {pool : Pool P} (isAlign : Layout.isAlign block.align = true)
    (ends : Ends (Pool.fill parent data block blockCount) s fun made later =>
      made = pool ∧ later = after) :
    pool.data = some data ∧ pool.blockSize = block.size ∧ pool.blockCount = blockCount ∧
      block.align ∣ data := by
  simp only [Pool.fill, Pool.buildFreeList, ends_bind, ends_require,
    ends_demand_some] at ends
  rcases ends with ⟨_, meets, rest⟩
  rcases rest.and (ends_pushBelow_fields _ _ _ _) with ⟨_, _, _, ⟨rfl, _⟩, head, rfl⟩
  exact ⟨rfl, rfl, rfl, (alignMeets_iff isAlign).mp meets⟩

/-- Every reachable program keeps the free list whole. -/
theorem Reachable.invariant (reachable : Reachable memory program) :
    exists data free, Invariant program data memory free := by
  induction reachable with
  | @initCap before mid after blockCount block raised array parent pool asked ran up wanted given size room =>
      have ends : Ends (Pool.initCap blockCount block parent) before fun result later =>
          result = (.ok, some pool) ∧ later = after := ⟨_, _, ran, rfl, rfl⟩
      simp only [Pool.initCap, ends_bind, ends_require, up, wanted] at ends
      rcases ends with ⟨some_, _, isAlign, answered⟩
      have tiling := tiling_of_ckdBlock isAlign asked.2 up
      -- the parent's answer is where the pool puts its blocks
      have rest := answered.of_eq given
      simp only [ends_bind, ends_pure, Prod.mk.injEq, true_and, Option.some.injEq] at rest
      rcases filled tiling.isAlign rest with ⟨_, _, _, on_⟩
      have whole : memory.size = raised.size * blockCount := by
        rcases raised.ckdArray_cases blockCount with ⟨large, _⟩ | ⟨fits, _⟩
        · cases large.symm.trans wanted
        · rw [size, ← Option.some.inj (fits.symm.trans wanted)]
      have inside : Region.Within ⟨memory.start, raised.size * blockCount⟩ memory := by
        unfold Region.Within Region.stop
        rw [whole]
        exact ⟨Nat.le_refl _, Nat.le_refl _⟩
      have below : memory.start + raised.size * blockCount < sizeRange := by
        rw [← whole]
        exact room.2
      have built := @ends_fill _ _ _ _ mid (some parent) _ _ tiling room.1 on_ below some_ inside
      rcases rest.and built with ⟨_, _, _, ⟨rfl, rfl⟩, free, invariant⟩
      exact ⟨memory.start, free, invariant⟩
  | @initBuf before after buf cap block pool asked ran given room =>
      have ends : Ends (Pool.initBuf buf cap block) before fun result later =>
          result = (.ok, some pool) ∧ later = after := ⟨_, _, ran, rfl, rfl⟩
      simp only [Pool.initBuf, ends_bind, ends_require] at ends
      rcases ends with ⟨real, _, _, isAlign, rest⟩
      subst given
      cases up : Pool.ckdBlock block with
      | none => simp [up, ends_pure] at rest
      | some raised =>
          have tiling := tiling_of_ckdBlock isAlign asked.2 up
          simp only [up] at rest
          by_cases short : alignPad buf raised.align > cap ∨ cap - alignPad buf raised.align < raised.size
          · simp [if_pos short, ends_pure] at rest
          · simp only [if_neg short, ends_bind, ends_pure, Prod.mk.injEq, true_and,
              Option.some.injEq] at rest
            rcases filled tiling.isAlign rest with ⟨_, _, _, on_⟩
            have word := tiling.word
            have size : 0 < raised.size := Nat.lt_of_lt_of_le (by decide) word
            have whole := Nat.mul_div_le (cap - alignPad buf raised.align) raised.size
            have some_ : 0 < (cap - alignPad buf raised.align) / raised.size :=
              Nat.div_pos (by omega) size
            unfold Region.stop at room
            dsimp only at room
            have inside : Region.Within
                ⟨buf + alignPad buf raised.align,
                  raised.size * ((cap - alignPad buf raised.align) / raised.size)⟩ ⟨buf, cap⟩ := by
              unfold Region.Within Region.stop
              dsimp only
              omega
            have base : 0 < buf + alignPad buf raised.align :=
              Nat.lt_of_lt_of_le (Nat.pos_of_ne_zero real) (Nat.le_add_right _ _)
            have built := @ends_fill _ _ _ _ before none _ _ tiling base on_
              (by omega) some_ inside
            rcases rest.and built with ⟨_, _, _, ⟨rfl, rfl⟩, free, invariant⟩
            exact ⟨_, free, invariant⟩
  | act _ act allowed ran ih =>
      rcases ih with ⟨data, free, invariant⟩
      rcases (ends_run invariant act allowed).of_eq ran with ⟨free, still⟩
      exact ⟨data, free, still⟩

/-- In every reachable program the free list and the blocks held are the blocks of
the array, each one once; the blocks held lie apart in the memory given, on the
pool's alignment; a request that the pool was built for is refused exactly when it
is too large or nothing is free; and no call that is allowed goes wrong. -/
theorem Reachable.divides_blocks (reachable : Reachable memory program) :
    exists data free, program.pool.data = some data ∧
      Threaded (HasBytes.bytes program.world) program.pool.freeHead free ∧ free.Nodup ∧
      (forall addr, addr ∈ free -> exists k, k < program.pool.blockCount ∧
        addr = data + k * program.pool.blockSize) ∧
      (forall addr, addr ∈ free -> forall block, block ∈ program.blocks -> addr ≠ block.ptr) ∧
      (forall k, k < program.pool.blockCount -> data + k * program.pool.blockSize ∈ free ∨
        exists block, block ∈ program.blocks ∧ block.ptr = data + k * program.pool.blockSize) ∧
      program.pool.used = program.blocks.length ∧
      free.length = program.pool.blockCount - program.pool.used ∧
      (forall block, block ∈ program.blocks -> program.pool.blockAlign ∣ block.ptr ∧
        block.layout.align ∣ block.ptr ∧ block.layout.size ≤ program.pool.blockSize ∧
        Region.Within ⟨block.ptr, program.pool.blockSize⟩ memory) ∧
      (program.blocks.Pairwise fun left right =>
        Region.Apart ⟨left.ptr, program.pool.blockSize⟩ ⟨right.ptr, program.pool.blockSize⟩) ∧
      (forall layout : Layout, layout.Asked -> 0 < layout.size ->
        layout.align ≤ program.pool.blockAlign ->
        Ends (allocate (Pool.toAl P) layout) program.world fun ptr later =>
          (ptr = none <-> program.pool.blockSize < layout.size ∨ free = []) ∧
          (ptr = none -> later = program.world)) ∧
      forall act : Act, act.Allowed program ->
        Ends act.run program fun _ later => Reachable memory later := by
  rcases reachable.invariant with ⟨data, free, invariant⟩
  have live := invariant.live
  have length := invariant.length
  have used := invariant.used
  refine ⟨data, free, live.data_eq, invariant.threaded, invariant.threaded.nodup, ?_, ?_, ?_, used,
    by omega, ?_, ?_, ?_, ?_⟩
  · exact fun addr inside => mem_starts.mp (invariant.free_mem inside)
  · exact fun addr inside block held => invariant.free_ne inside held
  · intro k below
    have mine : data + k * program.pool.blockSize ∈ program.pool.all data :=
      mem_starts.mpr ⟨k, below, rfl⟩
    rcases List.mem_append.mp (invariant.divided.mem_iff.mpr mine) with isFree | held
    · exact Or.inl isFree
    · exact Or.inr (List.mem_map.mp held)
  · intro block held
    have fits := invariant.fits block held
    have aligned := live.aligned (invariant.held_mem held)
    exact ⟨aligned, (Layout.isAlign_dvd_of_le fits.asked.isAlign live.isAlign fits.align).trans aligned, fits.size,
      live.within (invariant.held_mem held)⟩
  · have once := (List.nodup_append'.mp invariant.distinct).2.1
    refine (List.pairwise_map.mp once).imp_of_mem ?_
    intro left right leftIn rightIn different
    exact starts_apart (invariant.held_mem leftIn) (invariant.held_mem rightIn) different
  · intro layout asked some_ align
    apply ends_allocate invariant asked align
    · exact fun empty => absurd empty (Nat.ne_of_gt some_)
    · exact fun _ full => ⟨⟨fun _ => full, fun _ => rfl⟩, fun _ => rfl⟩
    · intro _ size node rest split_
      refine ⟨⟨fun impossible => (by cases impossible), ?_⟩, fun impossible => (by cases impossible)⟩
      rintro (large | empty)
      · omega
      · rw [split_] at empty
        cases empty
  · intro act allowed
    rcases ends_run invariant act allowed with ⟨_, later, ran, _⟩
    exact ⟨(), later, ran, reachable.act act allowed ran⟩

/-! ## Blocks of a buffer and of a parent -/

/-- The program after an act, if that ended. -/
def after (program : PoolProgram Bytes) (act : Act) : PoolProgram Bytes :=
  ((act.run program).map Prod.snd).getD program

theorem Reachable.after {program : PoolProgram Bytes} (reachable : Reachable memory program) (act : Act)
    (allowed : act.Allowed program) : Reachable memory (program.after act) := by
  rcases reachable.invariant with ⟨data, free, invariant⟩
  rcases ends_run invariant act allowed with ⟨_, later, ran, _⟩
  have same : program.after act = later := by
    rw [PoolProgram.after, ran]
    rfl
  rw [same]
  exact reachable.act act allowed ran

/-- The program that has just made a pool, if it could. -/
def made (run : Run Bytes (Status × Option (Pool Bytes))) : PoolProgram Bytes :=
  match run fun _ => 0 with
  | some ((_, some pool), bytes) => ⟨⟨pool, bytes⟩, []⟩
  | _ => ⟨⟨Pool.inert, fun _ => 0⟩, []⟩

/-- Two blocks of 16 bytes in 40, of which the first four are padding; both are taken. -/
def full : PoolProgram Bytes :=
  ((made (Pool.initBuf 4100 40 ⟨12, 4⟩)).after (.alloc ⟨10, 4⟩)).after (.alloc ⟨12, 8⟩)

theorem full_reachable : Reachable ⟨4100, 40⟩ full := by
  have first : Reachable ⟨4100, 40⟩ (made (Pool.initBuf 4100 40 ⟨12, 4⟩)) :=
    @Reachable.initBuf _ _ _ (fun _ => 0) _ 4100 40 ⟨12, 4⟩ _ ⟨by decide, by decide⟩ rfl rfl (by decide)
  have second := first.after (.alloc ⟨10, 4⟩) ⟨⟨by decide, by decide, by decide⟩, by decide⟩
  exact second.after (.alloc ⟨12, 8⟩) ⟨⟨by decide, by decide, by decide⟩, by decide⟩

/-- A parent that has a block at 8192. -/
def lender : AlVtable Bytes := ⟨fun _ => return some 8192, none, none, none, fun _ _ => return ()⟩

/-- Three blocks of 32 bytes of a parent; one is taken. -/
def lent : PoolProgram Bytes := (made (Pool.initCap 3 ⟨24, 16⟩ lender)).after (.alloc ⟨20, 16⟩)

theorem lent_reachable : Reachable ⟨8192, 96⟩ lent := by
  have first : Reachable ⟨8192, 96⟩ (made (Pool.initCap 3 ⟨24, 16⟩ lender)) :=
    @Reachable.initCap _ _ _ (fun _ => 0) _ _ 3 ⟨24, 16⟩ _ _ lender _ ⟨by decide, by decide⟩ rfl rfl rfl rfl rfl (by decide)
  exact first.after (.alloc ⟨20, 16⟩) ⟨⟨by decide, by decide, by decide⟩, by decide⟩

/-- The two blocks lie apart, a third is refused, and after one is given back one is free; the block of the parent
lies in what the parent gave. -/
theorem Reachable.divides_blocks_taken :
    (Reachable ⟨4100, 40⟩ full ∧ full.blocks = [⟨4104, ⟨10, 4⟩⟩, ⟨4120, ⟨12, 8⟩⟩] ∧
      Region.Apart ⟨4104, 16⟩ ⟨4120, 16⟩ ∧
      Ends (allocate (Pool.toAl Bytes) ⟨8, 8⟩) full.world fun ptr later => ptr = none ∧ later = full.world) ∧
    (Reachable ⟨4100, 40⟩ (full.after (.dealloc 4104)) ∧ exists free : List Nat, free.length = 1 ∧
      Threaded (HasBytes.bytes (full.after (.dealloc 4104)).world) (some 4104) free) ∧
    Reachable ⟨8192, 96⟩ lent ∧ lent.blocks = [⟨8192, ⟨20, 16⟩⟩] ∧ Region.Within ⟨8192, 32⟩ ⟨8192, 96⟩ := by
  have two : full.blocks = [⟨4104, ⟨10, 4⟩⟩, ⟨4120, ⟨12, 8⟩⟩] := by with_unfolding_all rfl
  have size : full.pool.blockSize = 16 := by with_unfolding_all rfl
  have align : full.pool.blockAlign = 8 := by with_unfolding_all rfl
  have spare : full.pool.blockCount - full.pool.used = 0 := by with_unfolding_all rfl
  have one : lent.blocks = [⟨8192, ⟨20, 16⟩⟩] := rfl
  have held : (⟨4104, ⟨10, 4⟩⟩ : PoolBlock) ∈ full.blocks := two ▸ List.mem_cons_self
  have thinned := full_reachable.after (.dealloc 4104) ⟨_, held, rfl⟩
  refine ⟨⟨full_reachable, two, ?_⟩, ⟨thinned, ?_⟩, lent_reachable, one, ?_⟩
  · rcases Reachable.divides_blocks full_reachable with
      ⟨_, free, _, _, _, _, _, _, _, length, _, apart, refused, _⟩
    have none_ : free = [] := List.length_eq_zero_iff.mp (length.trans spare)
    rw [two, size] at apart
    refine ⟨List.rel_of_pairwise_cons apart List.mem_cons_self, ?_⟩
    have asked : (⟨8, 8⟩ : Layout).Asked := ⟨by decide, by decide, by decide⟩
    refine (refused ⟨8, 8⟩ asked (by decide) (Nat.le_of_eq align.symm)).mono ?_
    rintro ptr later ⟨exactly, unchanged⟩
    have nothing := exactly.mpr (Or.inr none_)
    exact ⟨nothing, unchanged nothing⟩
  · have again : (full.after (.dealloc 4104)).pool.blockCount - (full.after (.dealloc 4104)).pool.used = 1 := by
      with_unfolding_all rfl
    have head : (full.after (.dealloc 4104)).pool.freeHead = some 4104 := by with_unfolding_all rfl
    rcases Reachable.divides_blocks thinned with ⟨_, free, _, threaded, _, _, _, _, _, length, _⟩
    exact ⟨free, length.trans again, head ▸ threaded⟩
  · rcases Reachable.divides_blocks lent_reachable with ⟨_, _, _, _, _, _, _, _, _, _, within_, _⟩
    exact (within_ ⟨8192, ⟨20, 16⟩⟩ (one ▸ List.mem_cons_self)).2.2.2

end PoolProgram
end TerseDsa
