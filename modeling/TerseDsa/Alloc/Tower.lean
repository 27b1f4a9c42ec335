import TerseDsa.Alloc.Client
import TerseDsa.Alloc.Default
import TerseDsa.Alloc.Log
import TerseDsa.Arena.Contract
import TerseDsa.Pool.Contract
import TerseDsa.Slab.Contract

namespace TerseDsa

open Foundation Run

/-!
# Allocators built on allocators

An arena, a pool and a log stand on another allocator, which may itself stand on
one.  Each of them meets the contract of the hooks if the one below does, so any
tower of them does, however high; to a client on top of it memory is the heap of
blocks that have nothing to do with each other.
-/

/-! ## A log meets the contract of its parent -/

namespace Log

variable {P : Type} {below : Ledger P} {world : World Log P} {later : P} {ctx : Log} {layout old : Layout}
  {ptr newSize : Nat} {answer : Option Addr}

/-- The parent's ledger; the log adds nothing to it. -/
def ledger (below : Ledger P) : Ledger (World Log P) where
  live world := below.live world.below
  gives := below.gives
  good world := Live world ∧ below.good world.below ∧
    forall block, block ∈ below.live world.below -> Layout.isAlign block.2.align = true

theorem ends_assertLog (live : Live world) {post : Unit -> World Log P -> Prop} :
    Ends assertLog world post <-> post () world := by
  have stands : world.ctx.live = true := live
  simp only [assertLog, ends_bind, World.ends_self, ends_require, stands, true_and]

theorem ends_line {text : String} {post : Unit -> World Log P -> Prop} :
    Ends (line text) world post <-> post () { world with ctx := { world.ctx with lines := world.ctx.lines ++ [text] } } :=
  ends_modify _ _ _

variable [HasBytes P]

/-- What the parent granted, the log granted. -/
theorem grants (good : (ledger below).good world) (live : ctx.live = true)
    (isAlign : Layout.isAlign layout.align = true) (grants : below.Grants layout world.below answer later) :
    (ledger below).Grants layout world answer ⟨ctx, later⟩ := by
  rcases grants with ⟨still, intact, outcome⟩
  refine ⟨⟨live, still, fun block inside => ?_⟩, intact, outcome⟩
  cases answer with
  | none =>
      dsimp only at outcome inside
      exact good.2.2 block (outcome ▸ inside)
  | some addr =>
      dsimp only at outcome inside
      rw [outcome.2] at inside
      rcases inside with rfl | before
      · exact isAlign
      · exact good.2.2 block before

/-- What the parent resized, the log resized. -/
theorem resizes (good : (ledger below).good world) (live : ctx.live = true)
    (isAlign : Layout.isAlign old.align = true) (resizes : below.Resizes ptr old newSize world.below answer later) :
    (ledger below).Resizes ptr old newSize world answer ⟨ctx, later⟩ := by
  rcases resizes with ⟨still, intact, outcome⟩
  refine ⟨⟨live, still, fun block inside => ?_⟩, intact, outcome⟩
  cases answer with
  | none =>
      dsimp only at outcome inside
      exact good.2.2 block (outcome.1 ▸ inside)
  | some addr =>
      dsimp only at outcome inside
      rw [outcome.2.1] at inside
      rcases inside with rfl | before
      · exact isAlign
      · exact good.2.2 block before.1

/-- A log over whatever meets the contract meets it too, with all five hooks. -/
theorem meets {parent : AlVtable P} (meets : below.Meets parent) (showPtr : Option Addr -> String) :
    (ledger below).Meets (toAl showPtr parent) where
  alloc world layout good asked gives some_ := by
    simp only [toAl, alloc, ends_bind, ends_assertLog good.1, ends_require, some_, true_and, World.ends_under]
    refine (meets.serves.ends_allocate good.2.1 trivial asked gives).mono fun answer later both => ?_
    exact ends_line.mpr ((ends_pure _ _ _).mpr (grants good good.1 asked.isAlign both.1))
  allocZeroed := by
    rintro _ ⟨⟩ world layout good asked gives some_
    simp only [allocZeroed, ends_bind, ends_assertLog good.1, ends_require, some_, true_and, World.ends_under]
    refine (meets.serves.ends_allocateZeroed good.2.1 trivial asked gives).mono fun answer later both => ?_
    refine ends_line.mpr ((ends_pure _ _ _).mpr ⟨grants good good.1 asked.isAlign both.1, ?_⟩)
    exact fun addr same => (both.2 addr same).2
  resize := by
    rintro _ ⟨⟩ world ptr old newSize good inside held some_ fits
    have isAlign := good.2.2 _ inside
    simp only [resize, ends_bind, ends_assertLog good.1, ends_require, held, some_, true_and, World.ends_under]
    refine (meets.serves.ends_resizeInPlace good.2.1 inside isAlign held some_ fits).mono fun done later both => ?_
    exact ends_line.mpr ((ends_pure _ _ _).mpr (resizes good good.1 isAlign both.1))
  remap := by
    rintro _ ⟨⟩ world ptr old newSize good inside held some_ fits
    have isAlign := good.2.2 _ inside
    simp only [remap, ends_bind, ends_assertLog good.1, ends_require, held, some_, true_and, World.ends_under]
    refine (meets.serves.ends_moveByHook good.2.1 inside isAlign held some_ fits).mono fun answer later both => ?_
    exact ends_line.mpr ((ends_pure _ _ _).mpr (resizes good good.1 isAlign both.1))
  dealloc world ptr layout good inside held := by
    have isAlign := good.2.2 _ inside
    simp only [toAl, dealloc, ends_bind, ends_assertLog good.1, ends_line, World.ends_under]
    refine (meets.serves.ends_deallocate good.2.1 inside isAlign held).mono ?_
    rintro _ later ⟨still, intact, live⟩
    refine ⟨⟨good.1, still, fun block there => good.2.2 block ?_⟩, intact, live⟩
    dsimp only at there
    rw [live] at there
    exact there.1
  write world block region content good inside within := by
    rcases meets.write world.below block region content good.2.1 inside within with ⟨still, live⟩
    exact ⟨⟨good.1, still, fun each there => good.2.2 each (live ▸ there)⟩, live⟩

end Log

/-! ## Towers -/

/-- An allocator that meets the contract, under any number of arenas, pools and logs, with the
ledger of what is out of it.  A pool gives the alignments up to its blocks'. -/
inductive Tower : (S : Type) -> HasBytes S -> Ledger S -> AlVtable S -> Prop where
  | base {S : Type} [bytes : HasBytes S] {ledger : Ledger S} {al : AlVtable S} (meets : ledger.Meets al) :
      Tower S bytes ledger al
  | arena {P : Type} {bytes : HasBytes P} {below : Ledger P} {al : AlVtable P} (tower : Tower P bytes below al)
      (data : Nat) (home : Nat × Layout) :
      Tower (Booked (World (Arena P) P)) inferInstance
        (Booked.ledger (fun _ => True) (Arena.Lends below data home)) (Arena.toAl P).booked
  | pool {P : Type} {bytes : HasBytes P} {below : Ledger P} {al : AlVtable P} (tower : Tower P bytes below al)
      (data blockAlign : Nat) (home : Nat × Layout) :
      Tower (Booked (World (Pool P) P)) inferInstance
        (Booked.ledger (· ≤ blockAlign) (Pool.Lends below data blockAlign home)) (Pool.toAl P).booked
  | log {P : Type} {bytes : HasBytes P} {below : Ledger P} {al : AlVtable P} (tower : Tower P bytes below al)
      (showPtr : Option Addr -> String) :
      Tower (World Log P) inferInstance (Log.ledger below) (Log.toAl showPtr al)

namespace Tower

variable {S : Type} {bytes : HasBytes S} {ledger : Ledger S} {al : AlVtable S}

/-! ### What there is to build on -/

/-- The default allocator, on an honest C library. -/
theorem default [HasBytes S] {maxAlign : MaxAlign} {libc : Libc S} (honest : libc.Honest maxAlign ledger)
    (others : Set (Nat × Layout)) :
    Tower (Booked S) inferInstance (Booked.ledger (fun _ => True) (Default.Backs maxAlign ledger others))
      (alDefault maxAlign libc).booked :=
  base (Default.keeps honest others).serves.meets

/-- A slab, beside what others have of its parent. -/
theorem slab (others : List (Nat × Layout)) :
    Tower (Booked (World (Slab Parent) Parent)) inferInstance
      (Booked.ledger (fun _ => True) (Slab.Lends others)) (Slab.toAl Parent).booked :=
  base (Slab.keeps others).serves.meets

/-! ### A tower is a heap -/

/-- A tower meets the contract, one allocator after the other. -/
theorem meets (tower : Tower S bytes ledger al) : ledger.Meets al := by
  induction tower with
  | base meets => exact meets
  | arena _ data home ih => exact (Arena.keeps ih data home).serves.meets
  | pool _ data blockAlign home ih =>
      exact (Pool.keeps ih data blockAlign home).serves.meets
  | log _ showPtr ih => exact Log.meets ih showPtr

/-- What a client sees of an allocator, whichever calls it makes and whatever it writes: a run of
the abstract heap, over blocks that stay apart, live and aligned, in which no call goes wrong. -/
def LooksLikeHeap [HasBytes S] (ledger : Ledger S) (al : AlVtable S) : Prop :=
  forall start client : Client S, Client.Sound ledger start -> Client.Reaches ledger (fun _ => True) al start client ->
    Relation.ReflTransGen (fun cells later => exists act : Client.Act, act.Allowed ledger.gives cells ∧
      Client.Step cells act later) start.view client.view ∧
    (client.held.Pairwise fun left right => (Parent.region left).Apart (Parent.region right)) ∧
    (forall block, block ∈ client.held -> block ∈ ledger.live client.state ∧ block.2.align ∣ block.1) ∧
    forall act : Client.Act, act.Allowed ledger.gives client.view ->
      Ends (act.run al) client fun _ later => Client.Step client.view act later.view

theorem looksLikeHeap (tower : Tower S bytes ledger al) : LooksLikeHeap ledger al := by
  intro start client sound reaches
  have serves := tower.meets.serves
  rcases reaches.sound serves sound with ⟨now, steps⟩
  refine ⟨steps, now.apart, fun block inside => ⟨now.live block inside, (now.asked block inside).2.2.2⟩, ?_⟩
  exact fun act allowed => (Client.ends_run serves now act allowed trivial).mono fun _ later both => both.2

/-- To its client every tower is a heap; and where an arena, a pool or a log is made over a
tower, at whatever moment, there is a higher tower that nobody has taken a block of, and below
it one block more is live, or none. -/
theorem towers_are_heaps (tower : Tower S bytes ledger al) :
    LooksLikeHeap ledger al ∧
      (forall s cap, ledger.good s -> ledger.gives 1 -> 0 < cap -> cap < sizeRange ->
        Ends (Arena.initCap cap al) s fun result later => ledger.good later ∧ match result with
          | (_, none) => ledger.live later = ledger.live s
          | (_, some made) => exists home higher, ledger.live later = insert home (ledger.live s) ∧
              Tower (Booked (World (Arena S) S)) inferInstance higher (Arena.toAl S).booked ∧
              Client.Sound higher ⟨⟨⟨made, later⟩, []⟩, []⟩) ∧
      (forall s blockCount (block : Layout), ledger.good s ->
        (forall raised, Pool.ckdBlock block = some raised -> ledger.gives raised.align) -> 0 < blockCount ->
        0 < block.size -> block.Asked ->
        Ends (Pool.initCap blockCount block al) s fun result later => ledger.good later ∧ match result with
          | (_, none) => ledger.live later = ledger.live s
          | (_, some made) => exists home higher, ledger.live later = insert home (ledger.live s) ∧
              (forall align, align ≤ block.align -> higher.gives align) ∧
              Tower (Booked (World (Pool S) S)) inferInstance higher (Pool.toAl S).booked ∧
              Client.Sound higher ⟨⟨⟨made, later⟩, []⟩, []⟩) ∧
      forall s lines showPtr, ledger.good s ->
        (forall block, block ∈ ledger.live s -> Layout.isAlign block.2.align = true) ->
        Tower (World Log S) inferInstance (Log.ledger ledger) (Log.toAl showPtr al) ∧
          Client.Sound (Log.ledger ledger) ⟨⟨Log.init lines, s⟩, []⟩ := by
  refine ⟨tower.looksLikeHeap, ?_, ?_, ?_⟩
  · intro s cap good gives some_ fits
    refine (Arena.ends_initCap tower.meets good gives some_ fits).mono ?_
    rintro ⟨status, made⟩ later ⟨still, outcome⟩
    refine ⟨still, ?_⟩
    cases made with
    | none => exact outcome.2
    | some made =>
        rcases outcome with ⟨_, _, data, live, lends⟩
        exact ⟨_, _, live, tower.arena data _, Client.Sound.nil ⟨lends, List.nodup_nil⟩⟩
  · intro s blockCount block good gives count some_ asked
    refine (Pool.ends_initCap tower.meets good gives count some_ asked).mono ?_
    rintro ⟨status, made⟩ later ⟨still, outcome⟩
    refine ⟨still, ?_⟩
    cases made with
    | none => exact outcome.2
    | some made =>
        rcases outcome with ⟨_, _, _, _, enough, data, live, lends⟩
        exact ⟨_, _, live, fun align small => Nat.le_trans small enough, tower.pool data _ _,
          Client.Sound.nil ⟨lends, List.nodup_nil⟩⟩
  · exact fun s lines showPtr good isAlign => ⟨tower.log showPtr, Client.Sound.nil ⟨rfl, good, isAlign⟩⟩

/-- A pool in an arena on the default allocator, and a log over an arena on a slab. -/
theorem towers_are_heaps_three_high :
    LooksLikeHeap
      (Booked.ledger (· ≤ 16) (Pool.Lends (Booked.ledger (fun _ => True) (Arena.Lends
        (Booked.ledger (fun _ => True) (Default.Backs ⟨⟨32, 16⟩, rfl, by decide⟩ Libc.scriptedLedger ∅))
        4096 (4096, ⟨1024, 1⟩))) 4096 16 (4096, ⟨512, 16⟩)))
      (Pool.toAl (Booked (World (Arena (Booked Parent)) (Booked Parent)))).booked ∧
    LooksLikeHeap
      (Log.ledger (Booked.ledger (fun _ => True) (Arena.Lends (Booked.ledger (fun _ => True) (Slab.Lends []))
        4096 (4096, ⟨1024, 1⟩))))
      (Log.toAl (fun _ => "") (Arena.toAl (Booked (World (Slab Parent) Parent))).booked) :=
  ⟨(towers_are_heaps (((Tower.default (Libc.scripted_honest _) ∅).arena 4096 (4096, ⟨1024, 1⟩)).pool 4096 16
    (4096, ⟨512, 16⟩))).1, (towers_are_heaps (((Tower.slab []).arena 4096 (4096, ⟨1024, 1⟩)).log fun _ => "")).1⟩

end Tower
end TerseDsa
