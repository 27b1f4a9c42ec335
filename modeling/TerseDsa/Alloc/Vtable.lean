import TerseDsa.Core.Layout
import TerseDsa.Foundation.Threads
import TerseDsa.Foundation.Heap

namespace TerseDsa

open Foundation Run

/-!
# Hooks and the wrappers around them

An allocator is the table of its hooks, each with its `ctx` applied: a hook
works on the state of the whole program, which has the allocator's own state
in it and, somewhere, the bytes of memory.  The wrappers are the only callers
of the hooks.
-/

/-- A state that has the bytes of memory in it. -/
class HasBytes (S : Type) where
  bytes : S -> Bytes
  withBytes : Bytes -> S -> S
  bytes_withBytes : forall later s, bytes (withBytes later s) = later

instance : HasBytes Bytes := ⟨id, fun bytes _ => bytes, fun _ _ => rfl⟩

/-- `tda_AlVtable`.  The first and the last hook are required. -/
structure AlVtable (S : Type) where
  alloc : Layout -> Run S (Option Addr)
  allocZeroed : Option (Layout -> Run S (Option Addr))
  resize : Option (Addr -> Layout -> Nat -> Run S Bool)
  remap : Option (Addr -> Layout -> Nat -> Run S (Option Addr))
  dealloc : Addr -> Layout -> Run S Unit

/-- An allocator's own state over the state of what it is built on. -/
structure World (Ctx P : Type) where
  ctx : Ctx
  below : P

namespace World

variable {Ctx P α : Type}

instance [HasBytes P] : HasBytes (World Ctx P) where
  bytes world := HasBytes.bytes world.below
  withBytes bytes world := { world with below := HasBytes.withBytes bytes world.below }
  bytes_withBytes _ _ := HasBytes.bytes_withBytes _ _

/-- The allocator's own state. -/
def self : Run (World Ctx P) Ctx := do
  let world ← get
  return world.ctx

/-- `*self = ctx`. -/
def setSelf (ctx : Ctx) : Run (World Ctx P) Unit := modify fun world => { world with ctx := ctx }

/-- Run on what the allocator is built on. -/
def under (run : Run P α) : Run (World Ctx P) α :=
  zoom World.below (fun below world => { world with below := below }) run

variable {world : World Ctx P}

@[simp] theorem ends_self {post : Ctx -> World Ctx P -> Prop} :
    Ends self world post <-> post world.ctx world := by
  simp only [self, ends_bind, Run.ends_get, ends_pure]

@[simp] theorem ends_setSelf {ctx : Ctx} {post : Unit -> World Ctx P -> Prop} :
    Ends (setSelf ctx) world post <-> post () { world with ctx := ctx } :=
  ends_modify _ _ _

theorem ends_under {run : Run P α} {post : α -> World Ctx P -> Prop} :
    Ends (under run) world post <->
      Ends run world.below fun a below => post a { world with below := below } :=
  ends_zoom

end World

/-- A layout that a caller may ask for: both fields are `size_t`. -/
structure Layout.Asked (layout : Layout) : Prop where
  isAlign : Layout.isAlign layout.align = true
  size : layout.size < sizeRange
  align : layout.align < sizeRange

namespace AlVtable

variable {S : Type} {al : AlVtable S} {s : S} {layout old : Layout} {addr : Addr}

/-- `!ptr || tda_align_meets(ptr, align)`. -/
def meets (ptr : Option Addr) (align : Nat) : Bool := ptr.all fun addr => alignMeets addr align

/-- `tda_alloc`. -/
def allocate (al : AlVtable S) (layout : Layout) : Run S (Option Addr) := do
  require (Layout.isAlign layout.align = true)
  if layout.size = 0 then
    return none
  let ptr ← al.alloc layout
  require (meets ptr layout.align = true)
  return ptr

/-- `tda_resize`. -/
def resizeInPlace (al : AlVtable S) (ptr : Addr) (old : Layout) (newSize : Nat) : Run S Bool := do
  require (0 < old.size ∧ 0 < newSize)
  require (Layout.isAlign old.align = true)
  match al.resize with
  | none => return false
  | some hook => hook ptr old newSize

/-- `tda_remap`. -/
def moveByHook (al : AlVtable S) (ptr : Addr) (old : Layout) (newSize : Nat) :
    Run S (Option Addr) := do
  require (0 < old.size ∧ 0 < newSize)
  require (Layout.isAlign old.align = true)
  match al.remap with
  | none => return none
  | some hook =>
      let moved ← hook ptr old newSize
      require (meets moved old.align = true)
      return moved

/-- `tda_dealloc`. -/
def deallocate (al : AlVtable S) (ptr : Option Addr) (layout : Layout) : Run S Unit := do
  require (ptr = none ∨ 0 < layout.size)
  require (Layout.isAlign layout.align = true)
  match ptr with
  | none => return ()
  | some addr => al.dealloc addr layout

section Copying

variable [HasBytes S]

/-- `memset`. -/
def setBytes (addr count : Nat) (byte : Byte) : Run S Unit :=
  modify fun s => HasBytes.withBytes ((HasBytes.bytes s).fill addr count byte) s

/-- `memcpy`. -/
def copyBytes (dst src count : Nat) : Run S Unit :=
  modify fun s => HasBytes.withBytes ((HasBytes.bytes s).copy dst src count) s

/-- `((FreeBlock *) addr)->next`. -/
def readLink (addr : Addr) : Run S (Option Addr) := do
  let s ← get
  return (HasBytes.bytes s).link addr

/-- `((FreeBlock *) addr)->next = target`. -/
def writeLink (addr : Addr) (target : Option Addr) : Run S Unit :=
  modify fun s => HasBytes.withBytes ((HasBytes.bytes s).setLink addr target) s

/-- `tda_alloc_zeroed`. -/
def allocateZeroed (al : AlVtable S) (layout : Layout) : Run S (Option Addr) := do
  require (Layout.isAlign layout.align = true)
  if layout.size = 0 then
    return none
  match al.allocZeroed with
  | some hook =>
      let ptr ← hook layout
      require (meets ptr layout.align = true)
      return ptr
  | none =>
      let ptr ← allocate al layout
      match ptr with
      | none => return none
      | some addr =>
          setBytes addr layout.size 0
          return some addr

/-- `tda_realloc`. -/
def reallocate (al : AlVtable S) (ptr : Option Addr) (old : Layout) (newSize : Nat) :
    Run S (Option Addr) := do
  require (ptr = none <-> old.size = 0)
  require (Layout.isAlign old.align = true)
  if newSize = 0 then
    deallocate al ptr old
    return none
  match ptr with
  | none => allocate al ⟨newSize, old.align⟩
  | some addr =>
      -- cheapest first: no move, then the allocator's own move, then a copy
      if ← resizeInPlace al addr old newSize then
        return some addr
      match ← moveByHook al addr old newSize with
      | some moved => return some moved
      | none =>
          match ← allocate al ⟨newSize, old.align⟩ with
          | none => return none
          | some fresh =>
              copyBytes fresh addr (if old.size < newSize then old.size else newSize)
              deallocate al (some addr) old
              return some fresh

end Copying

/-! ## Rules -/

theorem meets_some (isAlign : Layout.isAlign layout.align = true) :
    meets (some addr) layout.align = true <-> layout.align ∣ addr :=
  alignMeets_iff isAlign

/-- A hook that answers with aligned blocks passes the wrapper's check. -/
theorem ends_allocate (asked : layout.Asked) {post : Option Addr -> S -> Prop}
    (nothing : layout.size = 0 -> post none s)
    (hook : 0 < layout.size -> Ends (al.alloc layout) s fun ptr later =>
      (forall addr, ptr = some addr -> layout.align ∣ addr) ∧ post ptr later) :
    Ends (allocate al layout) s post := by
  simp only [allocate, ends_bind, ends_require, asked.isAlign, true_and]
  by_cases empty : layout.size = 0
  · simp only [if_pos empty, ends_pure]
    exact nothing empty
  · simp only [if_neg empty, ends_bind, ends_require, ends_pure]
    refine (hook (Nat.pos_of_ne_zero empty)).mono ?_
    rintro ptr later ⟨aligned, after⟩
    refine ⟨?_, after⟩
    cases ptr with
    | none => rfl
    | some addr => exact (meets_some asked.isAlign).mpr (aligned addr rfl)

end AlVtable

/-!
## The hook calls of a run

Over any allocator there is one that works as it does and writes down each call
of a hook, with what it was asked and what it answered, the earliest one first.
-/

/-- One call of a hook. -/
inductive HookCall where
  | alloc (layout : Layout) (answer : Option Addr)
  | allocZeroed (layout : Layout) (answer : Option Addr)
  | resize (ptr : Addr) (old : Layout) (newSize : Nat) (answer : Bool)
  | remap (ptr : Addr) (old : Layout) (newSize : Nat) (answer : Option Addr)
  | dealloc (ptr : Addr) (layout : Layout)
deriving DecidableEq

/-- A state with the hook calls that led to it. -/
structure Traced (S : Type) where
  state : S
  calls : List HookCall

namespace Traced

variable {S α : Type} {before : Traced S}

instance [HasBytes S] : HasBytes (Traced S) where
  bytes traced := HasBytes.bytes traced.state
  withBytes bytes traced := { traced with state := HasBytes.withBytes bytes traced.state }
  bytes_withBytes _ _ := HasBytes.bytes_withBytes _ _

/-- What a traced state shows without the calls. -/
def Shows (traced : Traced S) (state : S) : Prop := traced.state = state

/-- Run the hook, and write its call down. -/
def observe (call : α -> HookCall) (hook : Run S α) : Run (Traced S) α := do
  let answer ← zoom Traced.state (fun state traced => { traced with state := state }) hook
  modify fun traced => { traced with calls := traced.calls ++ [call answer] }
  return answer

@[simp] theorem ends_observe {call : α -> HookCall} {hook : Run S α} {post : α -> Traced S -> Prop} :
    Ends (observe call hook) before post <->
      Ends hook before.state fun answer later => post answer ⟨later, before.calls ++ [call answer]⟩ := by
  simp only [observe, ends_bind, ends_zoom, ends_modify, ends_pure]

end Traced

/-- The allocator that writes its hook calls down.  It has the hooks that the other one has. -/
def AlVtable.traced {S : Type} (al : AlVtable S) : AlVtable (Traced S) where
  alloc layout := Traced.observe (HookCall.alloc layout) (al.alloc layout)
  allocZeroed := al.allocZeroed.map fun hook layout =>
    Traced.observe (HookCall.allocZeroed layout) (hook layout)
  resize := al.resize.map fun hook ptr old newSize =>
    Traced.observe (HookCall.resize ptr old newSize) (hook ptr old newSize)
  remap := al.remap.map fun hook ptr old newSize =>
    Traced.observe (HookCall.remap ptr old newSize) (hook ptr old newSize)
  dealloc ptr layout := Traced.observe (fun _ => HookCall.dealloc ptr layout) (al.dealloc ptr layout)

namespace HookCall

variable {calls more : List HookCall} {layout : Layout} {addr : Nat}

/-- The blocks that were given back, in order. -/
def givenBack (calls : List HookCall) : List (Nat × Layout) :=
  calls.filterMap fun call =>
    match call with
    | dealloc ptr layout => some (ptr, layout)
    | _ => none

/-- The call asks for another size of a block that there is. -/
def Attempts : HookCall -> Prop
  | resize _ _ _ _ => True
  | remap _ _ _ _ => True
  | _ => False

@[simp] theorem givenBack_append : givenBack (calls ++ more) = givenBack calls ++ givenBack more :=
  List.filterMap_append

theorem givenBack_attempts (attempts : forall call, call ∈ calls -> call.Attempts) : givenBack calls = [] := by
  apply List.filterMap_eq_nil_iff.mpr
  intro call inside
  cases call with
  | dealloc ptr layout => exact (attempts _ inside).elim
  | _ => rfl

theorem alloc_not_mem_attempts {answer : Option Addr} (attempts : forall call, call ∈ calls -> call.Attempts) :
    alloc layout answer ∉ calls :=
  fun inside => attempts _ inside

end HookCall
end TerseDsa
