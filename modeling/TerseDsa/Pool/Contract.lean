import TerseDsa.Pool.Safety
import TerseDsa.Alloc.Booked

namespace TerseDsa

open Foundation Run AlVtable

/-!
# The pool as an allocator

Over whatever meets the contract of its hooks, a pool meets it too, for the
alignments it was built to give.  Unlike an arena it writes into its block, the
links of what is free, and so it relies on what its own owner may write there.
-/

namespace Pool

variable {P : Type} {below : Ledger P} {data blockAlign : Nat} {home block : Nat × Layout} {world : World (Pool P) P}
  {out others : List (Nat × Layout)} {layout old : Layout} {ptr newSize : Nat}

/-- The blocks as a program holds them. -/
def held (out : List (Nat × Layout)) : List PoolBlock := out.map fun block => ⟨block.1, block.2⟩

variable [HasBytes P] {parent : AlVtable P}

/-- The blocks that are out of a pool, whose memory lies in one block of what it was built on. -/
structure Lends (below : Ledger P) (data blockAlign : Nat) (home : Nat × Layout) (world : World (Pool P) P)
    (out : List (Nat × Layout)) : Prop where
  books : exists free, PoolProgram.Invariant ⟨world, held out⟩ data (Parent.region home) free
  good : below.good world.below
  owned : home ∈ below.live world.below
  align : world.ctx.blockAlign = blockAlign

namespace Lends

theorem perm (lends : Lends below data blockAlign home world out) (perm : out.Perm others) :
    Lends below data blockAlign home world others := by
  rcases lends with ⟨⟨free, books⟩, good, owned, align⟩
  have same : (held out).Perm (held others) := perm.map _
  refine ⟨⟨free, books.live, books.threaded, ?_, ?_, ?_⟩, good, owned, align⟩
  · exact (((same.map PoolBlock.ptr).append_left free).symm).trans books.divided
  · exact books.used.trans same.length_eq
  · exact fun block inside => books.fits block (same.mem_iff.mpr inside)

end Lends

omit [HasBytes P] in
/-- What fits does not depend on what is taken. -/
theorem fits_taken {pool : Pool P} (fits : PoolProgram.Fits pool layout) (used : Nat) (head : Option Addr) :
    PoolProgram.Fits { pool with used := used, freeHead := head } layout :=
  ⟨fits.asked, fits.some_, fits.size, fits.align⟩

/-- A block of the array is room for what fits, beside the blocks that are out. -/
theorem fresh {free : List Nat} (books : PoolProgram.Invariant ⟨world, held others⟩ data (Parent.region home) free)
    (sub : forall block, block ∈ out -> block ∈ others)
    (mine : ptr ∈ world.ctx.all data) (other : forall block, block ∈ out -> ptr ≠ block.1)
    (fits : PoolProgram.Fits world.ctx layout) : Fresh (Booked.those out) ptr layout := by
  have live : Live world.ctx data (Parent.region home) := books.live
  have base := live.base
  have room := live.room
  have within := starts_within mine
  have size := fits.size
  unfold Region.Within Region.stop at within
  dsimp only at within
  have low : data ≤ ptr := within.1
  refine ⟨Nat.lt_of_lt_of_le base low, by omega, ?_, ?_⟩
  · exact (Layout.isAlign_dvd_of_le fits.asked.isAlign live.isAlign fits.align).trans (live.aligned mine)
  · intro block inside
    have there : (⟨block.1, block.2⟩ : PoolBlock) ∈ held others := List.mem_map_of_mem (sub block inside)
    exact live.apart mine (books.held_mem there) (other block inside) (Region.within_of_le size)
      (Region.within_of_le (books.fits _ there).size)

/-- The blocks behind the first one start elsewhere. -/
theorem first_ne {free : List Nat}
    (books : PoolProgram.Invariant ⟨world, held ((ptr, old) :: out)⟩ data (Parent.region home) free) :
    forall block, block ∈ out -> ptr ≠ block.1 := by
  have once := (List.nodup_append'.mp books.distinct).2.1
  rintro block inside rfl
  refine (List.nodup_cons.mp once).1 (List.mem_map.mpr ⟨⟨block.1, block.2⟩, ?_, rfl⟩)
  exact List.mem_map_of_mem inside

omit [HasBytes P] in
/-- Whatever part of a block of the array is written, it lies in the home block. -/
theorem within_home (live : Live world.ctx data (Parent.region home)) (mine : ptr ∈ world.ctx.all data) {size : Nat}
    (short : size ≤ world.ctx.blockSize) : Region.Within ⟨ptr, size⟩ (Parent.region home) :=
  (Region.within_of_le short).trans (live.within mine)

/-- A link is written into a block of the array, as the owner of the home block may. -/
theorem link_written (meets : below.Meets parent) {pool : Pool P} {s : P}
    (live : Live pool data (Parent.region home)) (mine : ptr ∈ pool.all data) (good : below.good s)
    (owned : home ∈ below.live s) (target : Option Addr) :
    below.good (HasBytes.withBytes ((HasBytes.bytes s).setLink ptr target) s) ∧
      below.live (HasBytes.withBytes ((HasBytes.bytes s).setLink ptr target) s) = below.live s :=
  meets.write s home ⟨ptr, Bytes.wordSize⟩ (fun offset => BitVec.ofNat 8 (target.getD 0 / 256 ^ offset)) good owned
    (live.link_within.trans (live.within mine))

/-- The hooks of a pool keep what is out and what is free, and write only into what is free. -/
theorem keeps (meets : below.Meets parent) (data blockAlign : Nat) (home : Nat × Layout) :
    Booked.Keeps (· ≤ blockAlign) (fun _ => True) (Lends below data blockAlign home) (toAl P) where
  perm := Lends.perm
  alloc := by
    intro world out layout lends _ asked gives some_
    rcases lends with ⟨⟨free, books⟩, good, owned, rfl⟩
    refine AlVtable.ends_alloc_of some_ ?_
    apply PoolProgram.ends_allocate books asked gives
    · exact fun empty => absurd empty (Nat.ne_of_gt some_)
    · exact fun _ _ => ⟨Intact.refl _ _, ⟨free, books⟩, good, owned, rfl⟩
    · rintro _ size node rest rfl
      have live : Live world.ctx data (Parent.region home) := books.live
      have fits : PoolProgram.Fits world.ctx layout := ⟨asked, some_, size, gives⟩
      have mine : node ∈ world.ctx.all data := books.free_mem List.mem_cons_self
      refine ⟨Intact.refl _ _, ⟨⟨rest, live.taken _ _, books.threaded.pop, ?_, ?_, ?_⟩, good, owned, rfl⟩, ?_⟩
      · exact List.perm_middle.trans books.divided
      · exact (congrArg (· + 1) books.used).trans List.length_cons.symm
      · exact List.forall_mem_cons.mpr ⟨fits_taken fits _ _, fun block inside => fits_taken (books.fits block inside) _ _⟩
      · exact fresh books (fun _ inside => inside) mine
          (fun block inside => books.free_ne List.mem_cons_self (List.mem_map_of_mem inside)) fits
  allocZeroed := fun _ impossible => by cases impossible
  resize := by
    rintro _ ⟨⟩ world out ptr old newSize lends positive some_ fits
    rcases lends with ⟨⟨free, books⟩, good, owned, rfl⟩
    have live : Live world.ctx data (Parent.region home) := books.live
    have first : (⟨ptr, old⟩ : PoolBlock) ∈ held ((ptr, old) :: out) := List.mem_cons_self
    have before := books.fits _ first
    refine @AlVtable.ends_resize_of _ (toAl P) _ _ _ _ _ _ rfl ((PoolProgram.ends_resizeInPlace books first some_).mpr ?_)
    change Booked.Moves _ _ _ _ _ _ (if decide (newSize ≤ world.ctx.blockSize) = true then some ptr else none) world ∧
      (decide (newSize ≤ world.ctx.blockSize) = false -> True -> True)
    refine ⟨?_, fun _ able => able⟩
    by_cases room : newSize ≤ world.ctx.blockSize
    · rw [decide_eq_true room, if_pos rfl]
      have now : PoolProgram.Fits world.ctx ⟨newSize, old.align⟩ :=
        ⟨⟨before.asked.isAlign, fits, before.asked.align⟩, some_, room, before.align⟩
      have rest := (List.forall_mem_cons.mp books.fits).2
      refine ⟨Intact.refl _ _, ⟨⟨free, live, books.threaded, books.divided, books.used,
        List.forall_mem_cons.mpr ⟨now, rest⟩⟩, good, owned, rfl⟩, ?_, fun _ _ => rfl⟩
      exact fresh books (fun _ => List.mem_cons_of_mem _) (books.held_mem first) (first_ne books) now
    · rw [decide_eq_false room, if_neg Bool.false_ne_true]
      exact ⟨Intact.refl _ _, ⟨⟨free, books⟩, good, owned, rfl⟩, Intact.refl _ _⟩
  remap := fun _ impossible => by cases impossible
  dealloc := by
    intro world out ptr layout lends positive
    rcases lends with ⟨⟨free, books⟩, good, owned, rfl⟩
    have live : Live world.ctx data (Parent.region home) := books.live
    have first : (⟨ptr, layout⟩ : PoolBlock) ∈ held ((ptr, layout) :: out) := List.mem_cons_self
    have mine : ptr ∈ world.ctx.all data := books.held_mem first
    have rest := (List.forall_mem_cons.mp books.fits).2
    refine @AlVtable.ends_dealloc_of _ (toAl P) _ _ _ _ ((PoolProgram.ends_deallocate books first).mpr ?_)
    have written := link_written meets live mine good owned world.ctx.freeHead
    refine ⟨⟨⟨ptr :: free, live.taken _ _, ?_, ?_, ?_, ?_⟩, written.1, written.2.symm ▸ owned, rfl⟩, ?_⟩
    · change Threaded (HasBytes.bytes (HasBytes.withBytes _ world.below)) _ _
      rw [HasBytes.bytes_withBytes]
      apply books.threaded.push (live.linkable mine)
      intro node free_
      exact live.apart (books.free_mem free_) mine (books.free_ne free_ first) live.link_within live.link_within
    · exact List.perm_middle.symm.trans books.divided
    · exact (congrArg (· - 1) books.used).trans (Nat.add_sub_cancel _ _)
    · exact fun block inside => fits_taken (rest block inside) _ _
    · change Intact _ _ (HasBytes.bytes (HasBytes.withBytes _ world.below))
      rw [HasBytes.bytes_withBytes]
      refine Intact.of_keeps (Bytes.keeps_setLink _ _ _) fun block inside => ?_
      have there : (⟨block.1, block.2⟩ : PoolBlock) ∈ held ((ptr, layout) :: out) :=
        List.mem_map_of_mem (List.mem_cons_of_mem _ inside)
      exact live.apart mine (books.held_mem there) (first_ne books block inside) live.link_within
        (Region.within_of_le (books.fits _ there).size)
  write := by
    intro world out block region content lends inside within
    rcases lends with ⟨⟨free, books⟩, good, owned, rfl⟩
    have live : Live world.ctx data (Parent.region home) := books.live
    have there : (⟨block.1, block.2⟩ : PoolBlock) ∈ held out := List.mem_map_of_mem inside
    have short := (books.fits _ there).size
    have written := meets.write world.below home region content good owned
      (within.trans (within_home live (books.held_mem there) short))
    refine ⟨⟨free, books.rewritten rfl (?_ : Bytes.Keeps _ _ region) ?_⟩, written.1, written.2.symm ▸ owned, rfl⟩
    · rw [HasBytes.bytes_withBytes]
      exact Bytes.keeps_overwrite _ _ _
    · intro addr free_
      exact live.apart (books.free_mem free_) (books.held_mem there) (books.free_ne free_ there) live.link_within
        (within.trans (Region.within_of_le short))

/-! ## From the making of a pool to its end -/

/-- The blocks of a pool are at least what was asked for. -/
theorem ckdBlock_raises {raised : Layout} (asked : layout.Asked) (up : ckdBlock layout = some raised) :
    layout.size ≤ raised.size ∧ layout.align ≤ raised.align := by
  unfold ckdBlock at up
  rcases Option.map_eq_some_iff.mp up with ⟨size, rounded, rfl⟩
  have pointer : Layout.isAlign Layout.ofPointer.align = true ∧ Layout.ofPointer.align < sizeRange := by decide
  by_cases more : layout.align > Layout.ofPointer.align
  · rw [if_pos more] at rounded ⊢
    rcases alignCkdUp_some asked.isAlign asked.align rounded with ⟨_, low, _, _⟩
    refine ⟨Nat.le_trans ?_ low, Nat.le_refl _⟩
    split <;> omega
  · rw [if_neg more] at rounded ⊢
    rcases alignCkdUp_some pointer.1 pointer.2 rounded with ⟨_, low, _, _⟩
    refine ⟨Nat.le_trans ?_ low, Nat.le_of_not_lt more⟩
    split <;> omega

/-- Threading the blocks below `idx` writes links only. -/
theorem ends_pushBelow_good (meets : below.Meets parent) {pool : Pool P} (live : Live pool data (Parent.region home))
    {idx : Nat} (bound : idx ≤ pool.blockCount) {s : P} (head : Option Addr) (good : below.good s)
    (owned : home ∈ below.live s) :
    Ends (pushBelow { pool with freeHead := head } data idx) s fun _ later =>
      below.good later ∧ below.live later = below.live s := by
  induction idx generalizing s head with
  | zero =>
      simp only [pushBelow, ends_pure]
      exact ⟨good, trivial⟩
  | succ idx ih =>
      have mine : data + idx * pool.blockSize ∈ pool.all data := mem_starts.mpr ⟨idx, by omega, rfl⟩
      have written := link_written meets live mine good owned head
      simp only [pushBelow, pushFree, writeLink, ends_bind, ends_modify, ends_pure]
      refine (ih (by omega) _ written.1 (written.2.symm ▸ owned)).mono ?_
      exact fun _ later both => ⟨both.1, both.2.trans written.2⟩

/-- All blocks are free, and the pool lends nothing. -/
theorem ends_buildFreeList_lends (meets : below.Meets parent) {pool : Pool P} {s : P}
    (live : Live pool data (Parent.region home)) (unused : pool.used = 0) (good : below.good s)
    (owned : home ∈ below.live s) : Ends (buildFreeList pool) s fun made later =>
      (exists head, made = { pool with freeHead := head }) ∧ below.live later = below.live s ∧
        Lends below data pool.blockAlign home ⟨made, later⟩ [] := by
  have kept : Ends (buildFreeList pool) s fun _ later => below.good later ∧ below.live later = below.live s := by
    simp only [buildFreeList, ends_bind, live.data_eq, ends_demand_some]
    exact live.data_eq ▸ ends_pushBelow_good meets live (Nat.le_refl _) none good owned
  have built : Ends (buildFreeList pool) s fun made later => (exists head, made = { pool with freeHead := head }) ∧
      exists free, PoolProgram.Invariant ⟨⟨made, later⟩, []⟩ data (Parent.region home) free := by
    apply ends_buildFreeList live
    intro head later threaded
    refine ⟨⟨head, rfl⟩, _, live.taken _ head, threaded, ?_, unused, fun _ inside => absurd inside List.not_mem_nil⟩
    rw [List.map_nil, List.append_nil]
    exact List.Perm.refl _
  refine (kept.and built).mono ?_
  rintro made later ⟨⟨goodThen, same⟩, ⟨head, rfl⟩, books⟩
  exact ⟨⟨head, rfl⟩, same, books, goodThen, same.symm ▸ owned, rfl⟩

/-- The pool has one block of its parent's, large enough for all of its own, which are all free. -/
theorem ends_initCap (meets : below.Meets parent) {s : P} {blockCount : Nat} {block : Layout} (good : below.good s)
    (gives : forall raised, ckdBlock block = some raised -> below.gives raised.align) (count : 0 < blockCount)
    (some_ : 0 < block.size) (asked : block.Asked) :
    Ends (initCap blockCount block parent) s fun result later => below.good later ∧
      match result with
      | (status, none) => status = .errNoMem ∧ below.live later = below.live s
      | (status, some pool) => status = .ok ∧ pool.parent = some parent ∧ pool.blockCount = blockCount ∧
          block.size ≤ pool.blockSize ∧ block.align ≤ pool.blockAlign ∧ exists data,
            below.live later = insert (data, arrayLayout pool) (below.live s) ∧
              Lends below data pool.blockAlign (data, arrayLayout pool) ⟨pool, later⟩ [] := by
  simp only [initCap, ends_bind, ends_require, count, some_, asked.isAlign, true_and]
  cases up : ckdBlock block with
  | none =>
      simp only [ends_pure]
      exact ⟨good, trivial, trivial⟩
  | some raised =>
      have tiling := PoolProgram.tiling_of_ckdBlock asked.isAlign asked.align up
      have raises := ckdBlock_raises asked up
      rcases Layout.ckdArray_cases raised blockCount with ⟨large, _⟩ | ⟨whole, fits⟩
      · simp only [large, ends_pure]
        exact ⟨good, trivial, trivial⟩
      · simp only [whole, ends_bind]
        have wanted : Layout.Asked ⟨raised.size * blockCount, raised.align⟩ := ⟨tiling.isAlign, fits, tiling.align⟩
        refine (meets.serves.ends_allocate good trivial wanted (gives raised up)).mono ?_
        rintro answer later ⟨grants, _⟩
        cases answer with
        | none =>
            simp only [ends_pure]
            exact ⟨grants.good, trivial, grants.outcome⟩
        | some data =>
            rcases grants.outcome with ⟨fresh, grown⟩
            have layout_eq : forall head, arrayLayout (⟨some parent, some data, raised.size, raised.align, blockCount, 0,
                head⟩ : Pool P) = ⟨raised.size * blockCount, raised.align⟩ :=
              fun head => congrArg (Layout.mk · _) (wrapMul_eq fits)
            have live : Live ⟨some parent, some data, raised.size, raised.align, blockCount, 0, none⟩ data
                (Parent.region (data, ⟨raised.size * blockCount, raised.align⟩)) :=
              ⟨rfl, fresh.real, fresh.room, count, tiling.word, tiling.isAlign, tiling.align, tiling.tiles,
                fresh.aligned, Region.Within.refl _⟩
            have owned : (data, (⟨raised.size * blockCount, raised.align⟩ : Layout)) ∈ below.live later :=
              grown ▸ Set.mem_insert _ _
            have isType : raised.isType = true := by
              have size : 0 < raised.size := Nat.lt_of_lt_of_le (by decide) tiling.word
              rw [Layout.isType, tiling.isAlign, decide_eq_true size,
                decide_eq_true (Nat.mod_eq_zero_of_dvd tiling.tiles)]
              rfl
            simp only [fill, ends_bind, ends_require, ends_pure, isType,
              (alignMeets_iff tiling.isAlign).mpr fresh.aligned, true_and]
            refine (ends_buildFreeList_lends meets live rfl grants.good owned).mono ?_
            rintro made after ⟨⟨head, rfl⟩, same, lends⟩
            refine ⟨lends.good, rfl, rfl, raises.1, raises.2, data, ?_, ?_⟩
            · rw [layout_eq]
              exact same.trans grown
            · rw [layout_eq]
              exact lends

/-- A pool over whatever meets the contract of its hooks meets it as well, for the
alignments up to its blocks', from the making of it on: it takes one block, and hands
out parts of it that stay apart.  Its statistics count what is out and what is free,
and a block that fits is refused exactly when none is free.  A reset takes all back,
and the end gives back the one block and nothing else. -/
theorem pools_meet_contract (meets : below.Meets parent) :
    (forall s blockCount (block : Layout), below.good s ->
      (forall raised, ckdBlock block = some raised -> below.gives raised.align) -> 0 < blockCount ->
      0 < block.size -> block.Asked ->
      Ends (initCap blockCount block parent) s fun result later => below.good later ∧
        match result with
        | (status, none) => status = .errNoMem ∧ below.live later = below.live s
        | (status, some pool) => status = .ok ∧ pool.parent = some parent ∧ pool.blockCount = blockCount ∧
            block.size ≤ pool.blockSize ∧ block.align ≤ pool.blockAlign ∧ exists data,
              below.live later = insert (data, arrayLayout pool) (below.live s) ∧
                Lends below data pool.blockAlign (data, arrayLayout pool) ⟨pool, later⟩ []) ∧
      forall data blockAlign home,
        (Booked.ledger (· ≤ blockAlign) (Lends below data blockAlign home)).Meets (toAl P).booked ∧
        forall world out, Lends below data blockAlign home world out ->
          (Ends (stats world.ctx) world fun stats later => later = world ∧ stats.used = out.length ∧
            stats.used + stats.free = stats.blocks ∧ forall layout : Layout, layout.Asked -> 0 < layout.size ->
              layout.size ≤ stats.blockSize -> layout.align ≤ stats.blockAlign ->
              Ends (allocate (toAl P) layout) world fun ptr _ => ptr = none <-> stats.free = 0) ∧
          Ends reset world (fun _ later => Lends below data blockAlign home later []) ∧
          (home = (data, arrayLayout world.ctx) -> world.ctx.parent = some parent ->
            Ends (deinit world.ctx) world.below fun pool later =>
              pool = inert ∧ below.Releases home world.below later) := by
  refine ⟨fun s blockCount block good gives count some_ asked =>
    ends_initCap meets good gives count some_ asked, fun data blockAlign home => ?_⟩
  refine ⟨(keeps meets data blockAlign home).serves.meets, fun world out lends => ?_⟩
  rcases lends with ⟨⟨free, books⟩, good, owned, rfl⟩
  have live : Live world.ctx data (Parent.region home) := books.live
  have asserts : forall {S : Type} {s : S} {post : Unit -> S -> Prop},
      Ends (assertPool world.ctx) s post <-> post () s := PoolProgram.ends_assertPool books
  have length : free.length + (held out).length = world.ctx.blockCount := books.length
  have count : (held out).length = out.length := List.length_map _
  have used : world.ctx.used = (held out).length := books.used
  refine ⟨?_, ?_, ?_⟩
  · have room := live.room
    have whole : world.ctx.blockCount ≤ world.ctx.blockSize * world.ctx.blockCount :=
      Nat.le_mul_of_pos_left _ live.size_pos
    have small : wrapSub world.ctx.blockCount world.ctx.used = free.length := by
      rw [wrapSub_eq (by omega) (by omega)]
      omega
    simp only [stats, ends_bind, asserts, ends_pure, small]
    refine ⟨trivial, used.trans count, by omega, fun layout asked some_ size align => ?_⟩
    apply PoolProgram.ends_allocate books asked align
    · exact fun empty => absurd empty (Nat.ne_of_gt some_)
    · rintro _ (large | rfl)
      · exact absurd size (Nat.not_le_of_lt large)
      · exact ⟨fun _ => rfl, fun _ => rfl⟩
    · rintro _ _ node rest rfl
      exact ⟨fun impossible => (by cases impossible), fun impossible => (by cases impossible)⟩
  · have taken : Live { world.ctx with used := 0 } data (Parent.region home) := live.taken 0 _
    simp only [reset, ends_bind, World.ends_self, asserts, World.ends_under]
    refine (ends_buildFreeList_lends meets taken rfl good owned).mono ?_
    rintro made later ⟨_, _, lends⟩
    exact World.ends_setSelf.mpr lends
  · rintro rfl own
    have positive : 0 < (arrayLayout world.ctx).size := by
      rw [live.arrayLayout_eq]
      exact Nat.mul_pos live.size_pos live.count
    simp only [deinit, live.data_eq, own, ends_bind, asserts]
    refine (meets.serves.ends_deallocate good owned live.isAlign positive).mono ?_
    exact fun _ later releases => (ends_pure _ _ _).mpr ⟨rfl, releases⟩

/-- A pool over an honest parent. -/
theorem pools_meet_contract_of_parent :
    (Booked.ledger (· ≤ 16) (Lends Parent.ledger 4096 16 (4096, ⟨64, 16⟩))).Meets (toAl Parent).booked :=
  ((pools_meet_contract Parent.meets).2 4096 16 (4096, ⟨64, 16⟩)).1

end Pool
end TerseDsa
