import TerseDsa.Alloc.Booked
import TerseDsa.Core.Members
import Mathlib.Data.Set.Image

namespace TerseDsa

open Foundation Run

/-!
# `alloc/default`

The default allocator hands each request on to one of the functions of the C
library, which know no alignments but malloc's own, and of a block only its
address.  What is documented of those functions is all that is assumed of them;
from that the allocator meets the contract of its hooks, for every alignment, and
whatever else in the program takes memory of the library.
-/

/-- `max_align_t`. -/
structure MaxAlign where
  layout : Layout
  isType : layout.isType = true
  fits : layout.size < sizeRange

/-- The functions of the C library that the allocator calls. -/
structure Libc (S : Type) where
  malloc : Nat -> Run S (Option Addr)
  calloc : Nat -> Nat -> Run S (Option Addr)
  alignedAlloc : Nat -> Nat -> Run S (Option Addr)
  realloc : Addr -> Nat -> Run S (Option Addr)
  free : Addr -> Run S Unit

namespace Default

variable {S : Type} (maxAlign : MaxAlign) (libc : Libc S)

/-- `is_plain`. -/
def isPlain (align : Nat) : Bool := decide (align ≤ maxAlign.layout.align)

/-- `plain_size`. -/
def plainSize (size align : Nat) : Run S Nat := do
  require (isPlain maxAlign align = true)
  return if size ≥ align then size else maxAlign.layout.size

/-- `default_alloc`. -/
def alloc (layout : Layout) : Run S (Option Addr) := do
  require (0 < layout.size)
  if isPlain maxAlign layout.align then
    let size ← plainSize maxAlign layout.size layout.align
    libc.malloc size
  else
    require (Layout.isAlign layout.align = true)
    -- aligned_alloc takes a size that is a multiple of the alignment
    match alignCkdUp layout.size layout.align with
    | none => return none
    | some size => libc.alignedAlloc layout.align size

/-- `default_alloc_zeroed`. -/
def allocZeroed [HasBytes S] (layout : Layout) : Run S (Option Addr) := do
  require (0 < layout.size)
  if isPlain maxAlign layout.align then
    let size ← plainSize maxAlign layout.size layout.align
    libc.calloc 1 size
  else
    match ← alloc maxAlign libc layout with
    | none => return none
    | some ptr =>
        AlVtable.setBytes ptr layout.size 0
        return some ptr

/-- `default_remap`. -/
def remap (ptr : Addr) (old : Layout) (newSize : Nat) : Run S (Option Addr) := do
  require (0 < old.size)
  require (0 < newSize)
  -- realloc keeps only malloc's own alignment
  if ¬ isPlain maxAlign old.align then
    return none
  else
    let size ← plainSize maxAlign newSize old.align
    libc.realloc ptr size

/-- `default_dealloc`. -/
def dealloc (ptr : Addr) (_layout : Layout) : Run S Unit := libc.free ptr

end Default

/-- `tda_al_default`. -/
def alDefault {S : Type} [HasBytes S] (maxAlign : MaxAlign) (libc : Libc S) : AlVtable S where
  alloc := Default.alloc maxAlign libc
  allocZeroed := some (Default.allocZeroed maxAlign libc)
  resize := none
  remap := some (Default.remap maxAlign libc)
  dealloc := Default.dealloc libc

/-! ## What is documented of the library -/

namespace Libc

variable {S : Type} [HasBytes S]

/-- What the plain calls owe a block of `size` bytes: the alignments of the types that have
room in it, up to `max_align_t`'s. -/
def Owes (maxAlign : MaxAlign) (size : Nat) (ptr : Addr) : Prop :=
  forall align, Layout.isAlign align = true -> align ≤ maxAlign.layout.align -> align ≤ size -> align ∣ ptr

/-- The library hands out blocks apart from each other, and takes them back by their address.
Its blocks have no alignment in the ledger. -/
structure Honest (maxAlign : MaxAlign) (ledger : Ledger S) (libc : Libc S) : Prop where
  malloc : forall s size, ledger.good s -> 0 < size -> size < sizeRange ->
    Ends (libc.malloc size) s fun answer later => ledger.Grants ⟨size, 1⟩ s answer later ∧
      forall ptr, answer = some ptr -> Owes maxAlign size ptr
  calloc : forall s count size, ledger.good s -> 0 < count * size -> count * size < sizeRange ->
    Ends (libc.calloc count size) s fun answer later => ledger.Grants ⟨count * size, 1⟩ s answer later ∧
      forall ptr, answer = some ptr -> Owes maxAlign (count * size) ptr ∧
        forall offset, offset < count * size -> HasBytes.bytes later (ptr + offset) = 0
  alignedAlloc : forall s align size, ledger.good s -> Layout.isAlign align = true -> align ∣ size -> 0 < size ->
    size < sizeRange -> Ends (libc.alignedAlloc align size) s fun answer later =>
      ledger.Grants ⟨size, 1⟩ s answer later ∧ forall ptr, answer = some ptr -> align ∣ ptr
  realloc : forall s ptr oldSize newSize, ledger.good s -> (ptr, ⟨oldSize, 1⟩) ∈ ledger.live s -> 0 < newSize ->
    newSize < sizeRange -> Ends (libc.realloc ptr newSize) s fun answer later =>
      ledger.Resizes ptr ⟨oldSize, 1⟩ newSize s answer later ∧
        forall moved, answer = some moved -> Owes maxAlign newSize moved
  free : forall s ptr size, ledger.good s -> (ptr, ⟨size, 1⟩) ∈ ledger.live s ->
    Ends (libc.free ptr) s fun _ later => ledger.Releases (ptr, ⟨size, 1⟩) s later
  write : forall s block region content, ledger.good s -> block ∈ ledger.live s ->
    region.Within (Parent.region block) ->
    ledger.good (HasBytes.withBytes ((HasBytes.bytes s).overwrite region content) s) ∧
      ledger.live (HasBytes.withBytes ((HasBytes.bytes s).overwrite region content) s) = ledger.live s

end Libc

/-! ## What is asked of the library -/

namespace Default

variable {S : Type} {maxAlign : MaxAlign} {size align : Nat} {layout old : Layout}

/-- The bytes that a plain call is asked for. -/
def plainBytes (maxAlign : MaxAlign) (size align : Nat) : Nat := if size ≥ align then size else maxAlign.layout.size

/-- The bytes that the library is asked for. -/
def request (maxAlign : MaxAlign) (layout : Layout) : Nat :=
  if layout.align ≤ maxAlign.layout.align then plainBytes maxAlign layout.size layout.align
  else alignUp layout.size layout.align

/-- A block as the library knows it. -/
def backing (maxAlign : MaxAlign) (block : Nat × Layout) : Nat × Layout := (block.1, ⟨request maxAlign block.2, 1⟩)

/-- A plain request has room for the block, and is owed its alignment. -/
theorem plainBytes_le (plain : align ≤ maxAlign.layout.align) :
    size ≤ plainBytes maxAlign size align ∧ align ≤ plainBytes maxAlign size align := by
  have whole := (Layout.isType_align maxAlign.isType).2
  unfold plainBytes
  split <;> omega

theorem plainBytes_lt (fits : size < sizeRange) : plainBytes maxAlign size align < sizeRange := by
  unfold plainBytes
  split
  · exact fits
  · exact maxAlign.fits

theorem ends_plainSize {s : S} (plain : align ≤ maxAlign.layout.align) {post : Nat -> S -> Prop} :
    Ends (plainSize maxAlign size align) s post <-> post (plainBytes maxAlign size align) s := by
  have within : isPlain maxAlign align = true := decide_eq_true plain
  simp only [plainSize, ends_bind, ends_require, within, true_and, ends_pure]
  rfl

/-- The alignment is malloc's own or not, and the request is made accordingly. -/
theorem request_cases (maxAlign : MaxAlign) (layout : Layout) :
    (layout.align ≤ maxAlign.layout.align ∧ isPlain maxAlign layout.align = true ∧
        request maxAlign layout = plainBytes maxAlign layout.size layout.align) ∨
      (¬ layout.align ≤ maxAlign.layout.align ∧ isPlain maxAlign layout.align = false ∧
        request maxAlign layout = alignUp layout.size layout.align) := by
  by_cases plain : layout.align ≤ maxAlign.layout.align
  · exact Or.inl ⟨plain, decide_eq_true plain, if_pos plain⟩
  · exact Or.inr ⟨plain, decide_eq_false plain, if_neg plain⟩

/-! ## The blocks that are out -/

/-- A block that is out, in the one that the library gave for it. -/
structure Sized (maxAlign : MaxAlign) (layout : Layout) : Prop where
  isAlign : Layout.isAlign layout.align = true
  some_ : 0 < layout.size
  room : layout.size ≤ request maxAlign layout

namespace Sized

theorem request_pos (sized : Sized maxAlign layout) : 0 < request maxAlign layout :=
  Nat.lt_of_lt_of_le sized.some_ sized.room

theorem within {block : Nat × Layout} (sized : Sized maxAlign block.2) :
    (Parent.region block).Within (Parent.region (backing maxAlign block)) := Region.within_of_le sized.room

theorem plain (isAlign : Layout.isAlign layout.align = true) (some_ : 0 < layout.size)
    (plain : layout.align ≤ maxAlign.layout.align) : Sized maxAlign layout := by
  refine ⟨isAlign, some_, ?_⟩
  rw [request, if_pos plain]
  exact (plainBytes_le plain).1

end Sized

variable {ledger : Ledger S} {others : Set (Nat × Layout)} {s later : S} {out more : List (Nat × Layout)}
  {ptr newSize : Nat} {block : Nat × Layout}

/-- The library's blocks are those of the others and one for each block that is out. -/
structure Backs (maxAlign : MaxAlign) (ledger : Ledger S) (others : Set (Nat × Layout)) (s : S)
    (out : List (Nat × Layout)) : Prop where
  good : ledger.good s
  live : ledger.live s = others ∪ Set.image (backing maxAlign) (Booked.those out)
  own : forall block, block ∈ out -> backing maxAlign block ∉ others
  distinct : (out.map Prod.fst).Nodup
  sized : forall block, block ∈ out -> Sized maxAlign block.2

namespace Backs

theorem perm (backs : Backs maxAlign ledger others s out) (perm : out.Perm more) :
    Backs maxAlign ledger others s more where
  good := backs.good
  live := by
    have same : Booked.those more = Booked.those out := Set.ext fun block => perm.mem_iff.symm
    rw [same]
    exact backs.live
  own block inside := backs.own block (perm.mem_iff.mpr inside)
  distinct := (perm.map Prod.fst).nodup_iff.mp backs.distinct
  sized block inside := backs.sized block (perm.mem_iff.mpr inside)

/-- The library has a block for each one that is out. -/
theorem mem (backs : Backs maxAlign ledger others s out) (inside : block ∈ out) :
    backing maxAlign block ∈ ledger.live s := by
  rw [backs.live]
  exact Or.inr (Set.mem_image_of_mem _ inside)

/-- What is left alone in the library's blocks is left alone in those that are out. -/
theorem intact {live : Set (Nat × Layout)} {before after : Bytes}
    (sized : forall block, block ∈ out -> Sized maxAlign block.2)
    (sub : forall block, block ∈ out -> backing maxAlign block ∈ live) (intact : Intact live before after) :
    Intact (Booked.those out) before after := by
  intro block inside addr covers
  have within := (sized block inside).within
  exact intact _ (sub block inside) addr ⟨Nat.le_trans within.1 covers.1, Nat.lt_of_lt_of_le covers.2 within.2⟩

/-- A new block of the library has room for one beside those that are out. -/
theorem fresh {live : Set (Nat × Layout)} (sized : forall block, block ∈ out -> Sized maxAlign block.2)
    (sub : forall block, block ∈ out -> backing maxAlign block ∈ live) (mine : Sized maxAlign layout)
    (aligned : layout.align ∣ ptr) (fresh : Fresh live ptr ⟨request maxAlign layout, 1⟩) :
    Fresh (Booked.those out) ptr layout where
  real := fresh.real
  room := Nat.lt_of_le_of_lt (Nat.add_le_add_left mine.room ptr) fresh.room
  aligned := aligned
  apart block inside :=
    (fresh.apart _ (sub block inside)).within (Region.within_of_le mine.room) (sized block inside).within

/-- It starts where no other block does. -/
theorem not_mem_starts {live : Set (Nat × Layout)} (sized : forall block, block ∈ out -> Sized maxAlign block.2)
    (sub : forall block, block ∈ out -> backing maxAlign block ∈ live) (mine : Sized maxAlign layout)
    (fresh : Fresh live ptr ⟨request maxAlign layout, 1⟩) : ptr ∉ out.map Prod.fst := by
  intro inside
  rcases List.mem_map.mp inside with ⟨block, there, rfl⟩
  have apart := fresh.apart _ (sub block there)
  have some_ := mine.request_pos
  have theirs := (sized block there).request_pos
  unfold Region.Apart Parent.region backing Region.stop at apart
  dsimp only at apart
  omega

theorem cons (backs : Backs maxAlign ledger others s out) (good : ledger.good later)
    (mine : Sized maxAlign layout) (fresh : Fresh (ledger.live s) ptr ⟨request maxAlign layout, 1⟩)
    (live : ledger.live later = insert (ptr, ⟨request maxAlign layout, 1⟩) (ledger.live s)) :
    Backs maxAlign ledger others later ((ptr, layout) :: out) where
  good := good
  live := by
    rw [live, backs.live, Booked.those_cons, Set.image_insert_eq, Set.union_insert]
    rfl
  own := by
    refine List.forall_mem_cons.mpr ⟨fun foreign => ?_, backs.own⟩
    have there : (ptr, ⟨request maxAlign layout, 1⟩) ∈ ledger.live s := by
      rw [backs.live]
      exact Or.inl foreign
    exact fresh.ne mine.request_pos there rfl
  distinct := List.nodup_cons.mpr ⟨not_mem_starts backs.sized (fun _ => backs.mem) mine fresh, backs.distinct⟩
  sized := List.forall_mem_cons.mpr ⟨mine, backs.sized⟩

/-- When no block is out the library's are those of the others. -/
theorem live_nil : others ∪ Set.image (backing maxAlign) (Booked.those []) = others := by
  have none_ : Booked.those [] = ∅ := Set.eq_empty_of_forall_notMem fun _ => List.not_mem_nil
  rw [none_, Set.image_empty, Set.union_empty]

/-- The library's blocks without one that is out. -/
theorem live_sdiff (backs : Backs maxAlign ledger others s (block :: out)) :
    ledger.live s \ {backing maxAlign block} = others ∪ Set.image (backing maxAlign) (Booked.those out) := by
  have mine := backs.own block List.mem_cons_self
  have once := (List.nodup_cons.mp backs.distinct).1
  have elsewhere : backing maxAlign block ∉ Set.image (backing maxAlign) (Booked.those out) := by
    rintro ⟨other, inside, same⟩
    have start : (backing maxAlign other).1 = (backing maxAlign block).1 := congrArg Prod.fst same
    exact once (List.mem_map.mpr ⟨other, inside, start⟩)
  have neither : backing maxAlign block ∉ others ∪ Set.image (backing maxAlign) (Booked.those out) := by
    rintro (foreign | out_)
    · exact mine foreign
    · exact elsewhere out_
  rw [backs.live, Booked.those_cons, Set.image_insert_eq, Set.union_insert]
  exact Set.insert_sdiff_self_of_notMem neither

theorem tail (backs : Backs maxAlign ledger others s (block :: out)) (good : ledger.good later)
    (live : ledger.live later = ledger.live s \ {backing maxAlign block}) :
    Backs maxAlign ledger others later out where
  good := good
  live := live.trans backs.live_sdiff
  own := (List.forall_mem_cons.mp backs.own).2
  distinct := (List.nodup_cons.mp backs.distinct).2
  sized := (List.forall_mem_cons.mp backs.sized).2

/-- The other blocks are still the library's when one is not. -/
theorem mem_sdiff (backs : Backs maxAlign ledger others s (block :: out)) {other : Nat × Layout}
    (inside : other ∈ out) : backing maxAlign other ∈ ledger.live s \ {backing maxAlign block} := by
  rw [backs.live_sdiff]
  exact Or.inr (Set.mem_image_of_mem _ inside)

theorem unchanged (backs : Backs maxAlign ledger others s out) (good : ledger.good later)
    (live : ledger.live later = ledger.live s) : Backs maxAlign ledger others later out :=
  ⟨good, live.trans backs.live, backs.own, backs.distinct, backs.sized⟩

end Backs

/-! ## The hooks -/

section Hooks

variable [HasBytes S] {libc : Libc S} {answer : Option Addr}

/-- What the library answered is the answer to the request. -/
theorem Backs.hands (backs : Backs maxAlign ledger others s out) (mine : Sized maxAlign layout)
    (grants : ledger.Grants ⟨request maxAlign layout, 1⟩ s answer later)
    (aligned : forall ptr, answer = some ptr -> layout.align ∣ ptr) :
    Booked.Hands (Backs maxAlign ledger others) out layout s answer later := by
  rcases grants with ⟨good, intact, outcome⟩
  refine ⟨Backs.intact backs.sized (fun _ => backs.mem) intact, ?_⟩
  cases answer with
  | none => exact backs.unchanged good outcome
  | some ptr =>
      rcases outcome with ⟨fresh, live⟩
      exact ⟨backs.cons good mine fresh live,
        Backs.fresh backs.sized (fun _ => backs.mem) mine (aligned ptr rfl) fresh⟩

/-- The owner of a block writes into it. -/
theorem Backs.written (honest : libc.Honest maxAlign ledger) (backs : Backs maxAlign ledger others s out)
    (inside : block ∈ out) {region : Region} (within : region.Within (Parent.region block)) (content : Nat -> Byte) :
    Backs maxAlign ledger others (HasBytes.withBytes ((HasBytes.bytes s).overwrite region content) s) out := by
  have room := within.trans (backs.sized block inside).within
  rcases honest.write s _ region content backs.good (backs.mem inside) room with ⟨good, live⟩
  exact backs.unchanged good live

/-- malloc is asked, or aligned_alloc, for enough and on the alignment; the rounded size may
be none that there is. -/
theorem ends_alloc (honest : libc.Honest maxAlign ledger) (backs : Backs maxAlign ledger others s out)
    (asked : layout.Asked) (some_ : 0 < layout.size) :
    Ends (alloc maxAlign libc layout) s fun answer later =>
      Booked.Hands (Backs maxAlign ledger others) out layout s answer later ∧
        (answer ≠ none -> Sized maxAlign layout) := by
  rcases request_cases maxAlign layout with ⟨plain, isPlain_, request_⟩ | ⟨_, isPlain_, request_⟩
  · have mine := Sized.plain asked.isAlign some_ plain
    simp only [alloc, ends_bind, ends_require, some_, true_and, isPlain_, if_true, ends_plainSize plain]
    have positive : 0 < plainBytes maxAlign layout.size layout.align :=
      Nat.lt_of_lt_of_le some_ (plainBytes_le plain).1
    refine (honest.malloc s _ backs.good positive (plainBytes_lt asked.size)).mono ?_
    rintro answer later ⟨grants, owed⟩
    rw [← request_] at grants
    refine ⟨backs.hands mine grants fun ptr same => ?_, fun _ => mine⟩
    exact owed ptr same _ asked.isAlign plain (plainBytes_le plain).2
  · simp only [alloc, ends_bind, ends_require, some_, true_and, isPlain_, Bool.false_eq_true, if_false,
      asked.isAlign]
    cases up : alignCkdUp layout.size layout.align with
    | none =>
        simp only [ends_pure]
        exact ⟨⟨Intact.refl _ _, backs⟩, fun impossible => absurd rfl impossible⟩
    | some size =>
        rcases alignCkdUp_some asked.isAlign asked.align up with ⟨whole, room, _, fits⟩
        have rounded : request maxAlign layout = size := by
          unfold alignCkdUp at up
          split at up
          · cases up
          · exact request_.trans (Option.some.inj up)
        have mine : Sized maxAlign layout := ⟨asked.isAlign, some_, rounded ▸ room⟩
        have positive : 0 < size := Nat.lt_of_lt_of_le some_ room
        refine (honest.alignedAlloc s _ size backs.good asked.isAlign whole positive fits).mono ?_
        rintro answer later ⟨grants, aligned⟩
        rw [← rounded] at grants
        exact ⟨backs.hands mine grants aligned, fun _ => mine⟩

/-- The block is zeroed by the library, or here where the library has no call for it. -/
theorem ends_allocZeroed (honest : libc.Honest maxAlign ledger) (backs : Backs maxAlign ledger others s out)
    (asked : layout.Asked) (some_ : 0 < layout.size) :
    Ends (allocZeroed maxAlign libc layout) s fun answer later =>
      Booked.Hands (Backs maxAlign ledger others) out layout s answer later ∧
        forall ptr, answer = some ptr -> forall offset, offset < layout.size ->
          HasBytes.bytes later (ptr + offset) = 0 := by
  rcases request_cases maxAlign layout with ⟨plain, isPlain_, request_⟩ | ⟨_, isPlain_, _⟩
  · have mine := Sized.plain asked.isAlign some_ plain
    simp only [allocZeroed, ends_bind, ends_require, some_, true_and, isPlain_, if_true, ends_plainSize plain]
    have called := honest.calloc s 1 (plainBytes maxAlign layout.size layout.align) backs.good
    rw [Nat.one_mul] at called
    rw [← request_] at called ⊢
    refine (called mine.request_pos (request_ ▸ plainBytes_lt asked.size)).mono ?_
    rintro answer later ⟨grants, zeroed⟩
    refine ⟨backs.hands mine grants fun ptr same => ?_, fun ptr same offset low => ?_⟩
    · exact (zeroed ptr same).1 _ asked.isAlign plain (request_ ▸ (plainBytes_le plain).2)
    · exact (zeroed ptr same).2 offset (Nat.lt_of_lt_of_le low mine.room)
  · simp only [allocZeroed, ends_bind, ends_require, some_, true_and, isPlain_, Bool.false_eq_true, if_false]
    refine (ends_alloc honest backs asked some_).mono ?_
    rintro answer middle ⟨⟨intact, outcome⟩, _⟩
    cases answer with
    | none =>
        simp only [ends_pure]
        exact ⟨⟨intact, outcome⟩, fun _ impossible => absurd impossible.symm (Option.some_ne_none _)⟩
    | some ptr =>
        rcases outcome with ⟨backed, fresh⟩
        simp only [ends_bind, AlVtable.setBytes, ends_modify, ends_pure]
        have now := HasBytes.bytes_withBytes ((HasBytes.bytes middle).fill ptr layout.size 0) middle
        have after := backed.written honest List.mem_cons_self (Region.Within.refl _) fun _ => 0
        refine ⟨⟨intact.trans ?_, after, fresh⟩, ?_⟩
        · rw [now]
          exact Intact.of_keeps (Bytes.keeps_overwrite _ ⟨ptr, layout.size⟩ fun _ => 0) fresh.apart
        · rintro _ ⟨⟩ offset low
          rw [now]
          exact if_pos ⟨Nat.le_add_right _ _, Nat.add_lt_add_left low _⟩

/-- realloc moves a block that is no more aligned than its own, and nothing else is moved. -/
theorem ends_remap (honest : libc.Honest maxAlign ledger) (backs : Backs maxAlign ledger others s ((ptr, old) :: out))
    (some_ : 0 < newSize) (fits : newSize < sizeRange) :
    Ends (remap maxAlign libc ptr old newSize) s
      (Booked.Moves (Backs maxAlign ledger others) out ptr old newSize s) := by
  have mine := backs.sized _ List.mem_cons_self
  have rest := (List.forall_mem_cons.mp backs.sized).2
  have held : 0 < old.size := mine.some_
  rcases request_cases maxAlign old with ⟨plain, isPlain_, request_⟩ | ⟨_, isPlain_, _⟩
  · have wanted : Sized maxAlign ⟨newSize, old.align⟩ := Sized.plain mine.isAlign some_ plain
    have request_now : request maxAlign ⟨newSize, old.align⟩ = plainBytes maxAlign newSize old.align := if_pos plain
    simp only [remap, ends_bind, ends_require, held, some_, true_and, isPlain_, not_true_eq_false, if_false,
      ends_plainSize plain]
    have called := honest.realloc s ptr (request maxAlign old) (plainBytes maxAlign newSize old.align) backs.good
      (backs.mem List.mem_cons_self)
    rw [← request_now] at called ⊢
    refine (called wanted.request_pos (request_now ▸ plainBytes_lt fits)).mono ?_
    rintro answer later ⟨⟨good, intact, outcome⟩, owed⟩
    refine ⟨Backs.intact rest (fun _ => backs.mem_sdiff) intact, ?_⟩
    cases answer with
    | none =>
        rcases outcome with ⟨live, kept⟩
        exact ⟨backs.unchanged good live, Backs.intact backs.sized (fun _ => backs.mem) kept⟩
    | some moved =>
        rcases outcome with ⟨fresh, live, carries⟩
        have aligned : old.align ∣ moved :=
          owed moved rfl _ mine.isAlign plain (request_now ▸ (plainBytes_le plain).2)
        refine ⟨?_, Backs.fresh rest (fun _ => backs.mem_sdiff) wanted aligned fresh, ?_⟩
        · constructor
          · exact good
          · rw [live, Booked.those_cons, Set.image_insert_eq, Set.union_insert]
            exact congrArg _ backs.live_sdiff
          · refine List.forall_mem_cons.mpr ⟨fun foreign => ?_, (List.forall_mem_cons.mp backs.own).2⟩
            have there : (moved, ⟨request maxAlign ⟨newSize, old.align⟩, 1⟩) ∈
                ledger.live s \ {backing maxAlign (ptr, old)} := by
              rw [backs.live_sdiff]
              exact Or.inl foreign
            exact fresh.ne wanted.request_pos there rfl
          · refine List.nodup_cons.mpr ⟨?_, (List.nodup_cons.mp backs.distinct).2⟩
            exact Backs.not_mem_starts rest (fun _ => backs.mem_sdiff) wanted fresh
          · exact List.forall_mem_cons.mpr ⟨wanted, rest⟩
        · intro offset low
          have before := mine.room
          have after := wanted.room
          refine carries offset ?_
          dsimp only at before after ⊢
          omega
  · simp only [remap, ends_bind, ends_require, held, some_, true_and, isPlain_, Bool.false_eq_true,
      not_false_eq_true, if_true, ends_pure]
    exact ⟨Intact.refl _ _, backs, Intact.refl _ _⟩

/-- The hooks keep the books of the library's blocks. -/
theorem keeps (honest : libc.Honest maxAlign ledger) (others : Set (Nat × Layout)) :
    Booked.Keeps (fun _ => True) (fun _ => True) (Backs maxAlign ledger others) (alDefault maxAlign libc) where
  perm := Backs.perm
  alloc _ _ _ backs _ asked _ some_ := (ends_alloc honest backs asked some_).mono fun _ _ both => both.1
  allocZeroed := by
    rintro _ ⟨⟩ s out layout backs _ asked _ some_
    exact ends_allocZeroed honest backs asked some_
  resize := fun _ impossible => by cases impossible
  remap := by
    rintro _ ⟨⟩ s out ptr old newSize backs _ some_ fits
    exact (ends_remap honest backs some_ fits).mono fun _ _ moves => ⟨moves, fun _ able => able⟩
  dealloc s out ptr layout backs _ := by
    refine (honest.free s ptr _ backs.good (backs.mem List.mem_cons_self)).mono ?_
    rintro _ later ⟨good, intact, live⟩
    have rest := (List.forall_mem_cons.mp backs.sized).2
    exact ⟨backs.tail good live, Backs.intact rest (fun _ => backs.mem_sdiff) intact⟩
  write _ _ _ _ content backs inside within := backs.written honest inside within content

/-- Over a library that does what is documented of it, and whoever else takes memory of it, the
default allocator meets the contract of its hooks for every alignment.  A size that cannot be
rounded up to its alignment is refused without a call; the blocks of the others stay the
library's, and when all of its own were given back there are no others. -/
theorem default_meets_contract (honest : libc.Honest maxAlign ledger) :
    (forall s, ledger.good s -> Backs maxAlign ledger (ledger.live s) s []) ∧
      (forall others, (Booked.ledger (fun _ => True) (Backs maxAlign ledger others)).Meets
        (alDefault maxAlign libc).booked) ∧
      (forall others s out, Backs maxAlign ledger others s out -> others ⊆ ledger.live s ∧
        (out = [] -> ledger.live s = others)) ∧
      forall s (layout : Layout), layout.Asked -> 0 < layout.size -> maxAlign.layout.align < layout.align ->
        sizeMax - (layout.align - 1) < layout.size ->
        Ends (alloc maxAlign libc layout) s fun answer later => answer = none ∧ later = s := by
  refine ⟨fun s good => ?_, fun others => (keeps honest others).serves.meets, fun others s out backs => ?_, ?_⟩
  · constructor
    · exact good
    · exact Backs.live_nil.symm
    · exact fun _ inside => absurd inside List.not_mem_nil
    · exact List.nodup_nil
    · exact fun _ inside => absurd inside List.not_mem_nil
  · refine ⟨fun block foreign => ?_, ?_⟩
    · rw [backs.live]
      exact Or.inl foreign
    · rintro rfl
      exact backs.live.trans Backs.live_nil
  · intro s layout asked some_ beyond large
    have isPlain_ : isPlain maxAlign layout.align = false := decide_eq_false (Nat.not_le_of_lt beyond)
    have up : alignCkdUp layout.size layout.align = none := if_pos large
    simp only [alloc, ends_bind, ends_require, some_, true_and, isPlain_, Bool.false_eq_true, if_false,
      asked.isAlign, up, ends_pure, and_self]

end Hooks

end Default

/-! ## A library that answers by a script -/

namespace Libc

variable {maxAlign : MaxAlign} {self : Parent} {align size ptr newSize : Nat} {layout old : Layout}

/-- The next answer of the script counts only if it is on the alignment. -/
def filtered (align : Nat) (self : Parent) : Parent where
  bytes := self.bytes
  out := self.out
  answers := Function.update self.answers self.asked
    ⟨(self.answers self.asked).addr.filter fun addr => decide (align ∣ addr),
      (self.answers self.asked).grants, (self.answers self.asked).content⟩
  asked := self.asked

def onlyAligned (align : Nat) : Run Parent Unit := modify (filtered align)

/-- The layout of the block that is out at the address. -/
def lookUp (ptr : Addr) : Run Parent Layout := do
  let self ← get
  let block ← demand (self.out.find? fun block => decide (block.1 = ptr))
  return block.2

/-- The answers of an honest parent that are on malloc's own alignment. -/
def scripted (maxAlign : MaxAlign) : Libc Parent where
  malloc size := do
    onlyAligned maxAlign.layout.align
    Parent.alloc ⟨size, 1⟩
  calloc count size := do
    onlyAligned maxAlign.layout.align
    match ← Parent.alloc ⟨count * size, 1⟩ with
    | none => return none
    | some ptr =>
        AlVtable.setBytes ptr (count * size) 0
        return some ptr
  alignedAlloc align size := do
    onlyAligned align
    Parent.alloc ⟨size, 1⟩
  realloc ptr newSize := do
    let old ← lookUp ptr
    onlyAligned maxAlign.layout.align
    Parent.remap ptr old newSize
  free ptr := do
    let old ← lookUp ptr
    Parent.dealloc ptr old

/-- The parent's ledger; there are no blocks of no bytes. -/
def scriptedLedger : Ledger Parent where
  live := Parent.ledger.live
  gives _ := True
  good self := Parent.ledger.good self ∧ forall block, block ∈ self.out -> 0 < block.2.size

theorem ends_onlyAligned {post : Unit -> Parent -> Prop} :
    Ends (onlyAligned align) self post <-> post () (filtered align self) := ends_modify _ _ _

theorem filtered_reply : ((filtered align self).answers (filtered align self).asked).addr =
    (self.answers self.asked).addr.filter fun addr => decide (align ∣ addr) := by
  simp only [filtered, Function.update_self]

/-- What a parent answers is what the script says, or nothing. -/
theorem ends_alloc_reply : Ends (Parent.alloc layout) self fun answer _ =>
    answer = none ∨ answer = (self.answers self.asked).addr := by
  simp only [Parent.alloc, ends_bind, Parent.ends_answer, Run.ends_get]
  cases there : (self.answers self.asked).addr with
  | none => exact (ends_pure _ _ _).mpr (Or.inl rfl)
  | some addr =>
      by_cases honest : Parent.Honest self.out addr layout
      · simp only [if_pos honest, ends_bind, Run.ends_set, ends_pure, or_true]
      · simp only [if_neg honest, ends_pure, true_or]

theorem ends_remap_reply (isOut : (ptr, old) ∈ self.out) :
    Ends (Parent.remap ptr old newSize) self fun answer _ =>
      answer = none ∨ answer = (self.answers self.asked).addr := by
  simp only [Parent.remap, ends_bind, Parent.ends_answer, Run.ends_get, ends_require, isOut, true_and]
  cases there : (self.answers self.asked).addr with
  | none => exact (ends_pure _ _ _).mpr (Or.inl rfl)
  | some addr =>
      dsimp only
      by_cases honest : Parent.Honest (self.out.erase (ptr, old)) addr ⟨newSize, old.align⟩
      · simp only [if_pos honest, ends_bind, Run.ends_set, ends_pure, or_true]
      · simp only [if_neg honest, ends_pure, true_or]

/-- The script answers on the alignment, or nothing. -/
theorem aligned_of_reply {answer : Option Addr}
    (reply : answer = none ∨ answer = ((filtered align self).answers (filtered align self).asked).addr)
    (ptr : Addr) (answered : answer = some ptr) : align ∣ ptr := by
  rcases reply with none_ | same
  · exact absurd (none_.symm.trans answered) (Option.some_ne_none ptr).symm
  · rw [filtered_reply, answered] at same
    exact of_decide_eq_true (Option.filter_eq_some_iff.mp same.symm).2

theorem ends_lookUp (good : scriptedLedger.good self) (isOut : (ptr, layout) ∈ self.out)
    {post : Layout -> Parent -> Prop} : Ends (lookUp ptr) self post <-> post layout self := by
  have found : self.out.find? (fun block => decide (block.1 = ptr)) = some (ptr, layout) := by
    cases there : self.out.find? fun block => decide (block.1 = ptr) with
    | none => exact absurd (decide_eq_true rfl) (List.find?_eq_none.mp there (ptr, layout) isOut)
    | some block =>
        have inside := List.mem_of_find?_eq_some there
        have found : decide (block.1 = ptr) = true :=
          List.find?_some (p := fun each : Nat × Layout => decide (each.1 = ptr)) there
        have start : block.1 = ptr := of_decide_eq_true found
        by_contra different
        have apart := Region.apart_of_pairwise Parent.region good.1.2 inside isOut fun same =>
          different (congrArg some same)
        have mine := good.2 _ isOut
        have theirs := good.2 _ inside
        unfold Region.Apart Parent.region Region.stop at apart
        dsimp only at apart mine
        omega
  simp only [lookUp, ends_bind, Run.ends_get, found, ends_demand_some, ends_pure]

theorem good_of_sub {later : Parent} (good : scriptedLedger.good self) (still : Parent.ledger.good later)
    (sub : Parent.ledger.live later ⊆ Parent.ledger.live self) : scriptedLedger.good later :=
  ⟨still, fun each inside => good.2 each (sub inside)⟩

/-- There are no blocks of no bytes after a change of the blocks that are out. -/
theorem good_of_live {block : Nat × Layout} {later : Parent} {rest : Set (Nat × Layout)}
    (good : scriptedLedger.good self) (still : Parent.ledger.good later)
    (live : Parent.ledger.live later = insert block rest) (sub : rest ⊆ Parent.ledger.live self)
    (some_ : 0 < block.2.size) : scriptedLedger.good later := by
  refine ⟨still, fun each inside => ?_⟩
  have there : each ∈ Parent.ledger.live later := inside
  rw [live] at there
  rcases there with rfl | before
  · exact some_
  · exact good.2 each (sub before)

/-- A request is refused, or answered on the alignment. -/
theorem ends_alloc (good : scriptedLedger.good self) (some_ : 0 < size) :
    Ends (Parent.alloc ⟨size, 1⟩) (filtered align self) fun answer later =>
      scriptedLedger.Grants ⟨size, 1⟩ self answer later ∧ forall ptr, answer = some ptr -> align ∣ ptr := by
  have granted : Ends (Parent.alloc ⟨size, 1⟩) (filtered align self) _ := Parent.grants_alloc good.1 some_
  refine (granted.and_allows ends_alloc_reply.allows).mono ?_
  rintro answer later ⟨⟨still, intact, outcome⟩, reply⟩
  refine ⟨?_, aligned_of_reply reply⟩
  cases answer with
  | none =>
      have same : Parent.ledger.live later = Parent.ledger.live self := outcome
      exact ⟨good_of_sub good still same.subset, intact, outcome⟩
  | some ptr => exact ⟨good_of_live good still outcome.2 (fun _ inside => inside) some_, intact, outcome⟩

theorem owes_of_dvd (aligned : maxAlign.layout.align ∣ ptr) : Owes maxAlign size ptr := by
  intro align isAlign small _
  exact (Layout.isAlign_dvd_of_le isAlign (Layout.isType_align maxAlign.isType).1 small).trans aligned

/-- Such a library does what is documented of it, whatever the script says. -/
theorem scripted_honest (maxAlign : MaxAlign) : (scripted maxAlign).Honest maxAlign scriptedLedger where
  malloc := by
    intro s size good some_ _
    simp only [scripted, ends_bind, ends_onlyAligned]
    refine (ends_alloc good some_).mono ?_
    exact fun answer later both => ⟨both.1, fun ptr same => owes_of_dvd (both.2 ptr same)⟩
  calloc := by
    intro s count size good some_ _
    simp only [scripted, ends_bind, ends_onlyAligned]
    refine (ends_alloc good some_).mono ?_
    rintro answer middle ⟨grants, aligned⟩
    cases answer with
    | none => exact (ends_pure _ _ _).mpr ⟨grants, fun _ impossible => by cases impossible⟩
    | some ptr =>
        rcases grants with ⟨good, intact, fresh, live⟩
        simp only [ends_bind, AlVtable.setBytes, ends_modify, ends_pure]
        refine ⟨⟨good, intact.trans ?_, fresh, live⟩, ?_⟩
        · exact Intact.of_keeps (Bytes.keeps_overwrite _ ⟨ptr, count * size⟩ fun _ => 0) fresh.apart
        · rintro _ ⟨⟩
          refine ⟨owes_of_dvd (aligned ptr rfl), fun offset low => ?_⟩
          exact if_pos ⟨Nat.le_add_right _ _, Nat.add_lt_add_left low _⟩
  alignedAlloc := by
    intro s align size good _ _ some_ _
    simp only [scripted, ends_bind, ends_onlyAligned]
    exact ends_alloc good some_
  realloc := by
    intro s ptr oldSize newSize good isOut some_ _
    simp only [scripted, ends_bind]
    rw [ends_lookUp good isOut, ends_onlyAligned]
    have isOutThen : (ptr, (⟨oldSize, 1⟩ : Layout)) ∈ (filtered maxAlign.layout.align s).out := isOut
    have moved : Ends (Parent.remap ptr ⟨oldSize, 1⟩ newSize) (filtered maxAlign.layout.align s) _ :=
      Parent.resizes_remap good.1 isOut some_
    refine (moved.and_allows (ends_remap_reply isOutThen).allows).mono ?_
    rintro answer later ⟨⟨still, intact, outcome⟩, reply⟩
    refine ⟨?_, fun ptr same => owes_of_dvd (aligned_of_reply reply ptr same)⟩
    cases answer with
    | none =>
        have same : Parent.ledger.live later = Parent.ledger.live s := outcome.1
        exact ⟨good_of_sub good still same.subset, intact, outcome⟩
    | some ptr => exact ⟨good_of_live good still outcome.2.1 Set.sdiff_subset some_, intact, outcome⟩
  free := by
    intro s ptr size good isOut
    simp only [scripted, ends_bind]
    rw [ends_lookUp good isOut]
    refine (Parent.releases_dealloc good.1 isOut).mono ?_
    rintro _ later ⟨still, intact, live⟩
    exact ⟨good_of_sub good still (live.subset.trans Set.sdiff_subset), intact, live⟩
  write _ _ _ _ good _ _ := ⟨good, rfl⟩

end Libc

/-- The default allocator over such a library, where `max_align_t` has 32 bytes and is aligned to 16. -/
theorem Default.default_meets_contract_of_scripted :
    (Booked.ledger (fun _ => True) (Default.Backs ⟨⟨32, 16⟩, rfl, by decide⟩ Libc.scriptedLedger ∅)).Meets
      (alDefault ⟨⟨32, 16⟩, rfl, by decide⟩ (Libc.scripted ⟨⟨32, 16⟩, rfl, by decide⟩)).booked :=
  (Default.default_meets_contract (Libc.scripted_honest _)).2.1 ∅

end TerseDsa
