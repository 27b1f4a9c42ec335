import TerseDsa.Alloc.Vtable

namespace TerseDsa

open Foundation Run

/-!
# An honest parent

What an allocator over another one relies on: a parent that hands out blocks of
the size and on the alignment asked for, apart from all blocks it has out.  What
it answers is not computed but read from an arbitrary script, and so is what it
leaves in memory of its own; an answer that would not be honest counts as a
refusal, so that every script is an honest parent.

A block may only be resized or given back as it is out; anything else goes wrong.
-/

/-- What the script says to one request. -/
structure ParentAnswer where
  addr : Option Nat
  grants : Bool
  content : Nat -> Byte

/-- The memory, the blocks that are out, and the script. -/
structure Parent where
  bytes : Bytes
  out : List (Nat × Layout)
  answers : Nat -> ParentAnswer
  asked : Nat

instance : HasBytes Parent := ⟨Parent.bytes, fun bytes self => { self with bytes := bytes }, fun _ _ => rfl⟩

namespace Parent

/-- The region of a block that is out. -/
def region (block : Nat × Layout) : Region := ⟨block.1, block.2.size⟩

/-- A block that an honest parent may hand out beside those that are out. -/
structure Honest (out : List (Nat × Layout)) (addr : Nat) (layout : Layout) : Prop where
  real : 0 < addr
  room : addr + layout.size < sizeRange
  aligned : layout.align ∣ addr
  apart : forall block, block ∈ out -> Region.Apart ⟨addr, layout.size⟩ (region block)

instance (out : List (Nat × Layout)) (addr : Nat) (layout : Layout) :
    Decidable (Honest out addr layout) :=
  decidable_of_iff (0 < addr ∧ addr + layout.size < sizeRange ∧ layout.align ∣ addr ∧
      forall block, block ∈ out -> Region.Apart ⟨addr, layout.size⟩ (region block))
    ⟨fun ⟨real, room, aligned, apart⟩ => ⟨real, room, aligned, apart⟩,
      fun honest => ⟨honest.real, honest.room, honest.aligned, honest.apart⟩⟩

/-- The script's next answer. -/
def answer : Run Parent ParentAnswer := do
  let self ← get
  set { self with asked := self.asked + 1 }
  return self.answers self.asked

def alloc (layout : Layout) : Run Parent (Option Addr) := do
  let reply ← answer
  let self ← get
  match reply.addr with
  | none => return none
  | some addr =>
      if Honest self.out addr layout then do
        set { self with
          out := (addr, layout) :: self.out
          bytes := self.bytes.overwrite ⟨addr, layout.size⟩ reply.content }
        return some addr
      else
        return none

def resize (ptr : Addr) (old : Layout) (newSize : Nat) : Run Parent Bool := do
  let reply ← answer
  let self ← get
  require ((ptr, old) ∈ self.out)
  if reply.grants = true ∧ Honest (self.out.erase (ptr, old)) ptr ⟨newSize, old.align⟩ then do
    set { self with
      out := (ptr, ⟨newSize, old.align⟩) :: self.out.erase (ptr, old)
      bytes := self.bytes.overwrite ⟨ptr + old.size, newSize - old.size⟩ reply.content }
    return true
  else
    return false

/-- The bytes of a block that was moved: those it had, and what the script says. -/
def movedBytes (bytes : Bytes) (src kept : Nat) (content : Nat -> Byte) : Nat -> Byte := fun offset =>
  if offset < kept then bytes (src + offset) else content offset

def remap (ptr : Addr) (old : Layout) (newSize : Nat) : Run Parent (Option Addr) := do
  let reply ← answer
  let self ← get
  require ((ptr, old) ∈ self.out)
  match reply.addr with
  | none => return none
  | some addr =>
      if Honest (self.out.erase (ptr, old)) addr ⟨newSize, old.align⟩ then do
        set { self with
          out := (addr, ⟨newSize, old.align⟩) :: self.out.erase (ptr, old)
          bytes := (self.bytes.overwrite (region (ptr, old)) reply.content).overwrite ⟨addr, newSize⟩
            (movedBytes self.bytes ptr (min old.size newSize) reply.content) }
        return some addr
      else
        return none

def dealloc (ptr : Addr) (layout : Layout) : Run Parent Unit := do
  let reply ← answer
  let self ← get
  require ((ptr, layout) ∈ self.out)
  set { self with
    out := self.out.erase (ptr, layout)
    bytes := self.bytes.overwrite (region (ptr, layout)) reply.content }

/-- The parent as an allocator. -/
def toAl : AlVtable Parent where
  alloc := alloc
  allocZeroed := none
  resize := some resize
  remap := some remap
  dealloc := dealloc

/-! ## Rules -/

variable {self later : Parent} {layout old : Layout} {ptr newSize : Nat}

/-- A refusal leaves the memory and the blocks that are out as they are. -/
structure Same (before later : Parent) : Prop where
  out : later.out = before.out
  bytes : later.bytes = before.bytes

@[simp] theorem ends_answer {post : ParentAnswer -> Parent -> Prop} :
    Ends answer self post <->
      post (self.answers self.asked) { self with asked := self.asked + 1 } := by
  simp only [answer, ends_bind, Run.ends_get, Run.ends_set, ends_pure]

/-- A request is refused, or answered with a block apart from all that are out. -/
theorem ends_allocate (asked : layout.Asked) {post : Option Addr -> Parent -> Prop}
    (refused : forall later, Same self later -> post none later)
    (granted : 0 < layout.size -> forall addr later, Honest self.out addr layout ->
      later.out = (addr, layout) :: self.out ->
      Bytes.Keeps self.bytes later.bytes ⟨addr, layout.size⟩ -> post (some addr) later) :
    Ends (AlVtable.allocate toAl layout) self post := by
  apply AlVtable.ends_allocate asked
  · exact fun _ => refused self ⟨rfl, rfl⟩
  · intro some_
    change Ends (alloc layout) self _
    simp only [alloc, ends_bind, ends_answer, Run.ends_get]
    cases reply : (self.answers self.asked).addr with
    | none =>
        simp only [ends_pure]
        exact ⟨fun _ impossible => (by cases impossible), refused _ ⟨rfl, rfl⟩⟩
    | some addr =>
        by_cases honest : Honest self.out addr layout
        · simp only [if_pos honest, ends_bind, Run.ends_set, ends_pure]
          refine ⟨fun other same => Option.some.inj same ▸ honest.aligned, ?_⟩
          exact granted some_ addr _ honest rfl (Bytes.keeps_overwrite _ _ _)
        · simp only [if_neg honest, ends_pure]
          exact ⟨fun _ impossible => (by cases impossible), refused _ ⟨rfl, rfl⟩⟩

/-- A block that is out stays where it is and gets the new size, or nothing happens. -/
theorem ends_resizeInPlace (isAlign : Layout.isAlign old.align = true) (some_ : 0 < old.size)
    (wanted : 0 < newSize) (isOut : (ptr, old) ∈ self.out) {post : Bool -> Parent -> Prop}
    (refused : forall later, Same self later -> post false later)
    (granted : forall later, Honest (self.out.erase (ptr, old)) ptr ⟨newSize, old.align⟩ ->
      later.out = (ptr, ⟨newSize, old.align⟩) :: self.out.erase (ptr, old) ->
      Bytes.Keeps self.bytes later.bytes ⟨ptr + old.size, newSize - old.size⟩ -> post true later) :
    Ends (AlVtable.resizeInPlace toAl ptr old newSize) self post := by
  simp only [AlVtable.resizeInPlace, ends_bind, ends_require, some_, wanted, isAlign, true_and,
    and_self, toAl, resize, ends_answer, Run.ends_get, isOut]
  by_cases honest : (self.answers self.asked).grants = true ∧
      Honest (self.out.erase (ptr, old)) ptr ⟨newSize, old.align⟩
  · rw [if_pos honest]
    simp only [ends_bind, Run.ends_set, ends_pure]
    exact granted _ honest.2 rfl (Bytes.keeps_overwrite _ _ _)
  · rw [if_neg honest]
    simp only [ends_pure]
    exact refused _ ⟨rfl, rfl⟩

/-- A block that is out moves, or nothing happens. -/
theorem ends_moveByHook (isAlign : Layout.isAlign old.align = true) (some_ : 0 < old.size)
    (wanted : 0 < newSize) (isOut : (ptr, old) ∈ self.out) {post : Option Addr -> Parent -> Prop}
    (refused : forall later, Same self later -> post none later)
    (granted : forall addr later mid, Honest (self.out.erase (ptr, old)) addr ⟨newSize, old.align⟩ ->
      later.out = (addr, ⟨newSize, old.align⟩) :: self.out.erase (ptr, old) ->
      Bytes.Keeps self.bytes mid (region (ptr, old)) -> Bytes.Keeps mid later.bytes ⟨addr, newSize⟩ ->
      post (some addr) later) :
    Ends (AlVtable.moveByHook toAl ptr old newSize) self post := by
  simp only [AlVtable.moveByHook, ends_bind, ends_require, some_, wanted, isAlign, true_and,
    and_self, toAl, remap, ends_answer, Run.ends_get, isOut]
  cases reply : (self.answers self.asked).addr with
  | none =>
      simp only [ends_pure]
      exact ⟨rfl, refused _ ⟨rfl, rfl⟩⟩
  | some addr =>
      dsimp only
      by_cases honest : Honest (self.out.erase (ptr, old)) addr ⟨newSize, old.align⟩
      · rw [if_pos honest]
        simp only [ends_bind, Run.ends_set, ends_pure]
        exact ⟨(AlVtable.meets_some isAlign).mpr honest.aligned, granted addr _ _ honest rfl
          (Bytes.keeps_overwrite _ _ _) (Bytes.keeps_overwrite _ _ _)⟩
      · rw [if_neg honest]
        simp only [ends_pure]
        exact ⟨rfl, refused _ ⟨rfl, rfl⟩⟩

theorem ends_deallocate (isAlign : Layout.isAlign layout.align = true) (some_ : 0 < layout.size)
    (isOut : (ptr, layout) ∈ self.out) {post : Unit -> Parent -> Prop}
    (done : forall later, later.out = self.out.erase (ptr, layout) ->
      Bytes.Keeps self.bytes later.bytes (region (ptr, layout)) -> post () later) :
    Ends (AlVtable.deallocate toAl (some ptr) layout) self post := by
  simp only [AlVtable.deallocate, ends_bind, ends_require, some_, or_true, isAlign, true_and,
    toAl, dealloc, ends_answer, Run.ends_get, isOut, Run.ends_set]
  exact done _ rfl (Bytes.keeps_overwrite _ _ _)

end Parent
end TerseDsa
