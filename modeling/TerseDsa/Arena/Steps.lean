import TerseDsa.Arena.Program

namespace TerseDsa

open Foundation Run

/-!
# What an act does

Each act of a program keeps the invariant.  `Onward` says at once all that it
can do to the marks and to the blocks in the books; what holds over a run is
read off from it.
-/

namespace Arena

variable {P : Type} {world : World (Arena P) P} {data ptr : Nat} {layout old : Layout}
  {newSize : Nat}

theorem ends_allocate (live : Live world.ctx data) (asked : layout.Asked)
    {post : Option Addr -> World (Arena P) P -> Prop} (nothing : layout.size = 0 -> post none world)
    (refused : 0 < layout.size ->
      world.ctx.cap < world.ctx.offset + Live.pad world.ctx data layout.align + layout.size ->
      post none world)
    (granted : 0 < layout.size -> forall start, start = world.ctx.offset + Live.pad world.ctx data layout.align ->
      layout.align ∣ data + start -> start + layout.size ≤ world.ctx.cap ->
      post (some (data + start)) { world with ctx := { world.ctx with offset := start + layout.size } }) :
    Ends (AlVtable.allocate (toAl P) layout) world post := by
  apply AlVtable.ends_allocate asked nothing
  intro some_
  have inSpace : data + world.ctx.offset < sizeRange := by
    have room := live.room
    have offset := live.offset
    omega
  apply ends_alloc live asked some_
  · exact fun full => ⟨fun _ impossible => (by cases impossible), refused some_ full⟩
  · intro fits
    have aligned : layout.align ∣ data + (world.ctx.offset + Live.pad world.ctx data layout.align) := by
      rw [← Nat.add_assoc]
      exact alignPad_dvd asked.isAlign asked.align inSpace
    exact ⟨fun addr same => Option.some.inj same ▸ aligned, granted some_ _ rfl aligned fits⟩

theorem ends_resizeInPlace (live : Live world.ctx data) (isAlign : Layout.isAlign old.align = true)
    (some_ : 0 < old.size) (wanted : 0 < newSize) (above : data ≤ ptr)
    (inside : ptr + old.size ≤ data + world.ctx.offset) {post : Bool -> World (Arena P) P -> Prop}
    (last : ptr + old.size = data + world.ctx.offset -> data + world.ctx.floor ≤ ptr ->
      ptr - data + newSize ≤ world.ctx.cap ->
      post true { world with ctx := { world.ctx with offset := ptr - data + newSize } })
    (shrunk : newSize ≤ old.size -> post true world) (refused : post false world) :
    Ends (AlVtable.resizeInPlace (toAl P) ptr old newSize) world post := by
  simp only [AlVtable.resizeInPlace, ends_bind, ends_require, some_, wanted, isAlign,
    true_and, and_self]
  exact ends_resize live some_ wanted above inside last shrunk refused

theorem ends_deallocate (live : Live world.ctx data) (isAlign : Layout.isAlign old.align = true)
    (some_ : 0 < old.size) {post : Unit -> World (Arena P) P -> Prop} :
    Ends (AlVtable.deallocate (toAl P) (some ptr) old) world post <-> post () world := by
  simp only [AlVtable.deallocate, ends_bind, ends_require, some_, isAlign, true_and, or_true]
  change Ends (dealloc ptr old) world post <-> _
  simp only [dealloc, ends_bind, World.ends_self, ends_assertArena live]

variable [HasBytes P]

/-- `tda_realloc` of a block: in place, or by a copy into a new one. -/
theorem ends_reallocate (live : Live world.ctx data) (asked : old.Asked) (some_ : 0 < old.size)
    (wanted : 0 < newSize) (fits : newSize < sizeRange) (above : data ≤ ptr)
    (inside : ptr + old.size ≤ data + world.ctx.offset)
    {post : Option Addr -> World (Arena P) P -> Prop}
    (last : ptr + old.size = data + world.ctx.offset -> data + world.ctx.floor ≤ ptr ->
      ptr - data + newSize ≤ world.ctx.cap ->
      post (some ptr) { world with ctx := { world.ctx with offset := ptr - data + newSize } })
    (shrunk : newSize ≤ old.size -> post (some ptr) world) (refused : post none world)
    (moved : forall start below, world.ctx.offset ≤ start -> old.align ∣ data + start ->
      start + newSize ≤ world.ctx.cap ->
      post (some (data + start))
        ⟨{ world.ctx with offset := start + newSize }, below⟩) :
    Ends (AlVtable.reallocate (toAl P) (some ptr) old newSize) world post := by
  have real : ((some ptr : Option Addr) = none <-> old.size = 0) :=
    ⟨fun impossible => (by cases impossible), fun empty => absurd empty (Nat.ne_of_gt some_)⟩
  simp only [AlVtable.reallocate, ends_bind, ends_require, real, asked.isAlign, true_and,
    if_neg (Nat.ne_of_gt wanted)]
  apply ends_resizeInPlace live asked.isAlign some_ wanted above inside
  · intro isLast high room
    simp only [if_true, ends_pure]
    exact last isLast high room
  · intro less
    simp only [if_true, ends_pure]
    exact shrunk less
  · have noHook : forall {later : Option Addr -> World (Arena P) P -> Prop},
        Ends (AlVtable.moveByHook (toAl P) ptr old newSize) world later <-> later none world := by
      intro later
      simp only [AlVtable.moveByHook, ends_bind, ends_require, some_, wanted, asked.isAlign,
        true_and, and_self, toAl, ends_pure]
    simp only [Bool.false_eq_true, if_false, ends_bind, noHook]
    have askedNew : Layout.Asked ⟨newSize, old.align⟩ := ⟨asked.isAlign, fits, asked.align⟩
    apply ends_allocate live askedNew
    · exact fun empty => absurd empty (Nat.ne_of_gt wanted)
    · intro _ _
      exact (ends_pure _ _ _).mpr refused
    · intro _ start same aligned room
      simp only [AlVtable.copyBytes, ends_bind, ends_modify]
      have still : Live { world.ctx with offset := start + newSize } data :=
        live.moved (by have floor := live.floor; omega) room
      rw [ends_deallocate (by exact still) asked.isAlign some_, ends_pure]
      exact moved start _ (by omega) aligned room

end Arena

namespace ArenaProgram

variable {P : Type} {program later : ArenaProgram P} {data : Nat} {block other : ArenaBlock}

/-- A block after an act: it starts where it did, and only a block that is not
below the floor has grown. -/
structure Carries (high : Prop) (block after : ArenaBlock) : Prop where
  serial : after.serial = block.serial
  ptr : after.ptr = block.ptr
  align : after.layout.align = block.layout.align
  size : after.layout.size ≤ block.layout.size ∨ high

theorem Carries.refl {high : Prop} (block : ArenaBlock) : Carries high block block :=
  ⟨rfl, rfl, rfl, Or.inl (Nat.le_refl _)⟩

/-- What an act does to the marks. -/
inductive Remarks (program : ArenaProgram P) : Act -> List (ArenaMark × Nat) -> Prop
  | same (act : Act) : Remarks program act program.marks
  | taken (saved : ArenaMark) : Remarks program .mark ((saved, program.next) :: program.marks)
  | rewound (skipped : Nat) : Remarks program (.rewind skipped) (program.marks.drop (skipped + 1))
  | reset : Remarks program .reset []

/-- The act takes the block back. -/
def Invalidates (program : ArenaProgram P) (act : Act) (block : ArenaBlock) : Prop :=
  act = .reset ∨ exists skipped mark, act = .rewind skipped ∧
    program.marks[skipped]? = some mark ∧ mark.2 ≤ block.serial

/-- What an act does. -/
structure Onward (program later : ArenaProgram P) (data : Nat) (act : Act) : Prop where
  invariant : Invariant later data
  arena : exists offset floor,
    later.arena = { program.arena with offset := offset, floor := floor }
  next : program.next ≤ later.next
  marks : Remarks program act later.marks
  blocks : forall block, block ∈ program.blocks -> Invalidates program act block ∨
    exists after, after ∈ later.blocks ∧
      Carries (data + program.arena.floor ≤ block.ptr) block after

theorem ends_call {α : Type} {run : Run (World (Arena P) P) α} {post : α -> ArenaProgram P -> Prop} :
    Ends (call run) program post <->
      Ends run program.world fun a world => post a { program with world := world } :=
  ends_zoom

theorem ends_amend {serial : Nat} {change : ArenaBlock -> ArenaBlock}
    {post : Unit -> ArenaProgram P -> Prop} :
    Ends (amend serial change) program post <-> post () { program with
      blocks := program.blocks.map fun block =>
        if block.serial = serial then change block else block } :=
  ends_modify _ _ _

/-- The entry that is looked up is there, and is held. -/
theorem ends_lookUp {serial : Nat} (holds : Act.Holds serial program)
    {post : ArenaBlock -> ArenaProgram P -> Prop}
    (found : forall block, block ∈ program.blocks -> block.serial = serial -> block.held = true ->
      post block program) : Ends (lookUp serial) program post := by
  rcases holds with ⟨block, inside, same, held⟩
  simp only [lookUp, ends_bind, Run.ends_get]
  apply ends_demand_find ⟨block, inside, by rw [same, held]; simp⟩
  intro entry member is_
  rw [Bool.and_eq_true, decide_eq_true_eq] at is_
  exact found entry member is_.1 is_.2

namespace Onward

variable {act : Act}

/-- Nothing has changed but what the arena is built on. -/
theorem idle (invariant : Invariant program data) (act : Act) : Onward program program data act :=
  ⟨invariant, ⟨_, _, rfl⟩, Nat.le_refl _, .same act, fun block inside =>
    Or.inr ⟨block, inside, Carries.refl block⟩⟩

/-- One entry has changed, and the cursor may have moved. -/
theorem amended (invariant : Invariant program data) {offset : Nat}
    (change : ArenaBlock -> ArenaBlock) (act : Act) (inside : block ∈ program.blocks)
    (live : Arena.Live { program.arena with offset := offset } data)
    (others : forall other, other ∈ program.blocks -> other.serial ≠ block.serial ->
      other.stop ≤ data + offset)
    (placed : Placed data offset (change block))
    (carries : Carries False block (change block) ∨
      (Carries True block (change block) ∧ block.stop = data + program.arena.offset ∧
        data + program.arena.floor ≤ block.ptr)) :
    Onward program { program with
      world := { program.world with ctx := { program.arena with offset := offset } }
      blocks := program.blocks.map fun other =>
        if other.serial = block.serial then change other else other } data act := by
  have only : forall {other : ArenaBlock}, other ∈ program.blocks -> other.serial = block.serial ->
      other = block := fun there same => invariant.unique there inside same
  have serial : (change block).serial = block.serial :=
    carries.elim Carries.serial fun large => large.1.serial
  have ptr : (change block).ptr = block.ptr := carries.elim Carries.ptr fun large => large.1.ptr
  refine ⟨?_, ⟨offset, _, rfl⟩, Nat.le_refl _, .same act, ?_⟩
  · apply invariant.reshaped (fun other => if other.serial = block.serial then change other else other) live
    · intro other there
      by_cases same : other.serial = block.serial
      · rw [if_pos same, only there same]
        exact placed
      · have before := invariant.placed other there
        rw [if_neg same]
        exact ⟨before.asked, before.some_, before.above, others other there same, before.aligned⟩
    · intro other there
      by_cases same : other.serial = block.serial
      · rw [if_pos same, only there same, serial]
      · rw [if_neg same]
    · intro other there
      by_cases same : other.serial = block.serial
      · rw [if_pos same, only there same, ptr]
      · rw [if_neg same]
    · intro other there
      by_cases same : other.serial = block.serial
      · rw [if_pos same, only there same]
        rcases carries with small | ⟨_, last, high⟩
        · have less := small.size.resolve_right id
          refine Or.inl ?_
          unfold ArenaBlock.stop
          omega
        · exact Or.inr ⟨last, high⟩
      · rw [if_neg same]
        exact Or.inl (Nat.le_refl _)
  · intro other there
    refine Or.inr ⟨_, List.mem_map_of_mem there, ?_⟩
    by_cases same : other.serial = block.serial
    · rw [if_pos same, only there same]
      rcases carries with small | ⟨large, _, high⟩
      · exact ⟨small.serial, small.ptr, small.align, Or.inl (small.size.resolve_right id)⟩
      · exact ⟨large.serial, large.ptr, large.align, Or.inr high⟩
    · rw [if_neg same]
      exact Carries.refl other

theorem entered (onward : Onward program later data act) {start : Nat} {layout : Layout}
    (asked : layout.Asked) (some_ : 0 < layout.size) (behind : later.arena.offset ≤ start)
    (fits : start + layout.size ≤ later.arena.cap) (aligned : layout.align ∣ data + start) :
    Onward program { later with
      world := { later.world with ctx := { later.arena with offset := start + layout.size } }
      blocks := later.blocks ++ [⟨later.next, data + start, layout, true⟩]
      next := later.next + 1 } data act := by
  refine ⟨onward.invariant.entered asked some_ behind fits aligned, ?_, Nat.le_succ_of_le onward.next,
    onward.marks, ?_⟩
  · rcases onward.arena with ⟨offset, floor, same⟩
    refine ⟨start + layout.size, floor, ?_⟩
    change { later.arena with offset := start + layout.size } = _
    rw [same]
  · intro block inside
    rcases onward.blocks block inside with gone | ⟨after, there, carries⟩
    · exact Or.inl gone
    · exact Or.inr ⟨after, List.mem_append_left _ there, carries⟩

/-- What the arena is built on has changed besides. -/
theorem beneath (onward : Onward program later data act) (below : P) :
    Onward program { later with world := { later.world with below := below } } data act :=
  ⟨onward.invariant.beneath rfl, onward.arena, onward.next, onward.marks, onward.blocks⟩

theorem resizedLast (invariant : Invariant program data) (act : Act) {newSize : Nat}
    (inside : block ∈ program.blocks) (wanted : 0 < newSize) (fits : newSize < sizeRange)
    (last : block.ptr + block.layout.size = data + program.arena.offset)
    (high : data + program.arena.floor ≤ block.ptr)
    (room : block.ptr - data + newSize ≤ program.arena.cap) :
    Onward program { program with
      world := { program.world with ctx := { program.arena with
        offset := block.ptr - data + newSize } }
      blocks := program.blocks.map fun other =>
        if other.serial = block.serial then other.sized newSize else other } data act := by
  have placed := invariant.placed block inside
  have above := placed.above
  apply amended invariant (fun other => other.sized newSize) act inside
  · exact invariant.live.moved (by omega) room
  · intro other there different
    have order : other.stop ≤ block.ptr ∨ block.stop ≤ other.ptr :=
      invariant.apart there inside different
    have behind := (invariant.placed other there).inside
    have some_ := (invariant.placed other there).some_
    unfold ArenaBlock.stop at *
    omega
  · refine ⟨⟨placed.asked.isAlign, fits, placed.asked.align⟩, wanted, above, ?_, placed.aligned⟩
    unfold ArenaBlock.stop ArenaBlock.sized
    dsimp only
    omega
  · exact Or.inr ⟨⟨rfl, rfl, rfl, Or.inr trivial⟩, last, high⟩

/-- An entry was changed to one of a block no larger. -/
theorem lessened (invariant : Invariant program data) (act : Act) (change : ArenaBlock -> ArenaBlock)
    (inside : block ∈ program.blocks) (carries : Carries False block (change block))
    (some_ : 0 < (change block).layout.size) :
    Onward program { program with
      blocks := program.blocks.map fun other =>
        if other.serial = block.serial then change other else other } data act := by
  have placed := invariant.placed block inside
  have less := carries.size.resolve_right id
  have within := placed.inside
  have live : Arena.Live { program.arena with offset := program.arena.offset } data := invariant.live
  apply amended invariant change act inside live
  · exact fun other there _ => (invariant.placed other there).inside
  · refine ⟨⟨?_, Nat.lt_of_le_of_lt less placed.asked.size, ?_⟩, some_, ?_, ?_, ?_⟩
    · rw [carries.align]; exact placed.asked.isAlign
    · rw [carries.align]; exact placed.asked.align
    · rw [carries.ptr]; exact placed.above
    · unfold ArenaBlock.stop at *
      rw [carries.ptr]
      omega
    · rw [carries.align, carries.ptr]; exact placed.aligned
  · exact Or.inl carries

end Onward
end ArenaProgram
end TerseDsa
