import TerseDsa.Debug.Table
import TerseDsa.Alloc.Vtable
import TerseDsa.Core.Print

namespace TerseDsa

open Foundation AlVtable

/-!
# `alloc/debug`

Every block gets a guard behind it and a record in the table, and is checked
against both when it comes back.  It then waits in a quarantine of the last
blocks given back before the parent `P` gets it.  A misuse is reported, and a
report ends the program.
-/

/-- `FreedBlock`. -/
structure FreedBlock where
  ptr : Nat
  layout : Layout
  serial : Nat

/-- What `report` is called with. -/
inductive Report where
  | handedOutAgain (ptr serial : Nat)
  | handedOutQuarantined (ptr serial : Nat)
  | freedTwice (serial ptr : Nat)
  | notHandedOut (ptr : Nat)
  | madeWith (serial ptr : Nat) (made : Layout) (as_ : String) (given : Layout)
  | writtenPast (serial ptr size : Nat)
  | writtenAfterFreed (serial ptr size : Nat)
  | breakAt (serial : Nat)

/-- `tda_Debug`. -/
structure Debug (P : Type) where
  parent : Option (AlVtable P)
  table : BlockTable
  quarantine : Nat -> FreedBlock
  quarantineHead : Nat
  quarantineLen : Nat
  liveBytes : Nat
  peakBytes : Nat
  requests : Nat
  failAfter : Nat
  breakAt : Nat

/-- `tda_DebugStats`. -/
structure DebugStats where
  liveBlocks : Nat
  liveBytes : Nat
  peakBytes : Nat
  requests : Nat

/-- The parent, and the default allocator beside it. -/
structure Beside (P : Type) where
  below : P
  default : DefaultAl

instance {P : Type} [HasBytes P] : HasBytes (Beside P) where
  bytes beside := HasBytes.bytes beside.below
  withBytes bytes beside := { beside with below := HasBytes.withBytes bytes beside.below }
  bytes_withBytes _ _ := HasBytes.bytes_withBytes _ _

namespace Debug

variable {P α : Type}

def fillNew : Byte := 0xCD
def fillFreed : Byte := 0xDD
def fillGuard : Byte := 0xFD
def guardSize : Nat := 16
def quarantineCap : Nat := 64

/-- `UINT64_MAX`. -/
def uint64Max : Nat := 2 ^ 64 - 1

/-- `= {}`: the state after `deinit`. -/
def inert : Debug P := ⟨none, .inert, fun _ => ⟨0, ⟨0, 0⟩, 0⟩, 0, 0, 0, 0, 0, 0, 0⟩

/-- What the functions here run over. -/
abbrev Worlds (P : Type) := World (Debug P) (Beside P)

/-- What a call comes to that a report may end. -/
abbrev Verdict (α : Type) := Except Report α

/-- `ASSERT_DEBUG`. -/
def assertDebug {S : Type} (self : Debug P) : Run S (AlVtable P) := Run.demand self.parent

/-- Run on the parent. -/
def onParent (run : Run P α) : Run (Worlds P) α :=
  World.under (Run.zoom Beside.below (fun below beside => { beside with below := below }) run)

/-- Run on the default allocator. -/
def onDefault (run : Run DefaultAl α) : Run (Worlds P) α :=
  World.under (Run.zoom Beside.default (fun default beside => { beside with default := default }) run)

/-- `tda_debug_init`. -/
def init (parent : AlVtable P) : Debug P :=
  { (inert : Debug P) with parent := some parent, failAfter := uint64Max }

/-- `tda_debug_stats`. -/
def stats {S : Type} (self : Debug P) : Run S DebugStats := do
  let _ ← assertDebug self
  return ⟨self.table.len, self.liveBytes, self.peakBytes, self.requests⟩

/-- The line of `tda_debug_fprint_leaks` on one block. -/
def leakLine (pointer : Nat -> String) (entry : BlockRecord) : String :=
  "tda debug: leak: block #" ++ toString entry.serial ++ ", " ++ toString entry.layout.size ++
    " bytes at " ++ pointer entry.addr ++ "\n"

/-- The last line of `tda_debug_fprint_leaks`. -/
def leaksLine (self : Debug P) : String :=
  "tda debug: " ++ toString self.table.len ++ " leaked, " ++ toString self.liveBytes ++ " bytes\n"

/-- `tda_debug_fprint_leaks`. -/
def fprintLeaks {S C : Type} (pointer : Nat -> String) (self : Debug P) (out : OutStream × C) :
    Run S (Int × (OutStream × C)) := do
  let _ ← assertDebug self
  let (rc, out) ← Run.countUp (fun i vars => do
    let entry ← self.table.slot i
    if entry.addr ≠ 0 then
      return joined vars.1 (OutStream.put (leakLine pointer entry)) vars.2
    else
      return vars) self.table.cap 0 (0, out)
  return joined rc (OutStream.put (leaksLine self)) out

/-! ## Pieces -/

/-- `next_serial`. -/
def nextSerial : Run (Worlds P) (Verdict Nat) := do
  let self ← World.self
  let serial := (self.requests + 1) % 2 ^ 64
  World.setSelf { self with requests := serial }
  if serial = self.breakAt then
    return .error (.breakAt serial)
  else if serial > self.failAfter then
    return .ok 0
  else
    return .ok serial

/-- `quarantined`. -/
def quarantined (self : Debug P) (i : Nat) : FreedBlock :=
  self.quarantine ((self.quarantineHead + i) % quarantineCap)

/-- The quarantined blocks, oldest first. -/
def waiting (self : Debug P) : List FreedBlock := (List.range self.quarantineLen).map self.quarantined

/-- `quarantine_find`. -/
def quarantineFind (self : Debug P) (ptr : Nat) : Option FreedBlock :=
  self.waiting.find? fun freed => freed.ptr == ptr

/-- `all_equal`. -/
def allEqual (bytes : Bytes) (ptr n : Nat) (fill : Byte) : Bool :=
  (List.range n).all fun i => bytes (ptr + i) == fill

/-- `ckd_parent_layout`. -/
def ckdParentLayout (layout : Layout) : Option Layout :=
  (ckdAdd layout.size guardSize).map fun size => ⟨size, layout.align⟩

/-- `parent_layout`. -/
def parentLayout {S : Type} (layout : Layout) : Run S Layout := Run.demand (ckdParentLayout layout)

section Memory

variable [HasBytes P]

/-- `release_oldest`. -/
def releaseOldest : Run (Worlds P) (Verdict Unit) := do
  let self ← World.self
  let parent ← assertDebug self
  Run.require (0 < self.quarantineLen)
  let freed := self.quarantined 0
  World.setSelf { self with
    quarantineHead := (self.quarantineHead + 1) % quarantineCap
    quarantineLen := self.quarantineLen - 1 }
  let withGuard ← parentLayout freed.layout
  let world ← get
  if allEqual (HasBytes.bytes world) freed.ptr withGuard.size fillFreed = true then do
    onParent (deallocate parent (some freed.ptr) withGuard)
    return .ok ()
  else
    return .error (.writtenAfterFreed freed.serial freed.ptr freed.layout.size)

/-- The last lines of `quarantine_push`. -/
def pushNewest (freed : FreedBlock) : Run (Worlds P) Unit := do
  let self ← World.self
  World.setSelf { self with
    quarantineLen := self.quarantineLen + 1
    quarantine := Function.update self.quarantine
      ((self.quarantineHead + (self.quarantineLen + 1 - 1)) % quarantineCap) freed }

/-- `quarantine_push`. -/
def quarantinePush (freed : FreedBlock) : Run (Worlds P) (Verdict Unit) := do
  let self ← World.self
  if self.quarantineLen = quarantineCap then do
    match ← releaseOldest with
    | .error report => return .error report
    | .ok () => do
        pushNewest freed
        return .ok ()
  else do
    pushNewest freed
    return .ok ()

/-- `checked_entry`. -/
def checkedEntry (ptr : Nat) (layout : Layout) (take : Bool) (as_ : String) : Run (Worlds P) (Verdict BlockRecord) := do
  let self ← World.self
  let (entry, table) ← if take = true then self.table.take ptr else do
    let entry ← self.table.find ptr
    pure (entry, self.table)
  World.setSelf { self with table := table }
  match entry with
  | none =>
      match self.quarantineFind ptr with
      | some freed => return .error (.freedTwice freed.serial ptr)
      | none => return .error (.notHandedOut ptr)
  | some entry =>
      if entry.layout = layout then
        return .ok entry
      else
        return .error (.madeWith entry.serial ptr entry.layout as_ layout)

/-! ## Hooks -/

/-- The part of `debug_alloc` from the parent's answer on. -/
def record (parent : AlVtable P) (block : Nat) (layout withGuard : Layout) (serial : Nat) :
    Run (Worlds P) (Verdict (Option Addr)) := do
  let self ← World.self
  match ← self.table.find block with
  | some live => return .error (.handedOutAgain block live.serial)
  | none =>
      match self.quarantineFind block with
      | some freed => return .error (.handedOutQuarantined block freed.serial)
      | none => do
          let (inserted, table) ← onDefault (self.table.insert ⟨block, layout, serial⟩)
          World.setSelf { self with table := table }
          if inserted = true then do
            setBytes block layout.size fillNew
            setBytes (block + layout.size) guardSize fillGuard
            let liveBytes := wrapAdd self.liveBytes layout.size
            World.setSelf { self with
              table := table
              liveBytes := liveBytes
              peakBytes := if liveBytes > self.peakBytes then liveBytes else self.peakBytes }
            return .ok (some block)
          else do
            onParent (deallocate parent (some block) withGuard)
            return .ok none

/-- `debug_alloc`. -/
def alloc (layout : Layout) : Run (Worlds P) (Verdict (Option Addr)) := do
  let self ← World.self
  let parent ← assertDebug self
  Run.require (0 < layout.size)
  match ← nextSerial with
  | .error report => return .error report
  | .ok serial =>
      if serial = 0 then
        return .ok none
      else
        match ckdParentLayout layout with
        | none => return .ok none
        | some withGuard => do
            match ← onParent (allocate parent withGuard) with
            | none => return .ok none
            | some block => record parent block layout withGuard serial

/-- `debug_remap`. -/
def remap (ptr : Addr) (old : Layout) (newSize : Nat) : Run (Worlds P) (Verdict (Option Addr)) := do
  let self ← World.self
  let _ ← assertDebug self
  Run.require (0 < old.size ∧ 0 < newSize)
  match ← checkedEntry ptr old false "resized" with
  | .error report => return .error report
  | .ok _ => return .ok none

/-- `debug_dealloc`. -/
def dealloc (ptr : Addr) (layout : Layout) : Run (Worlds P) (Verdict Unit) := do
  let self ← World.self
  let _ ← assertDebug self
  match ← checkedEntry ptr layout true "given back" with
  | .error report => return .error report
  | .ok entry => do
      let world ← get
      if allEqual (HasBytes.bytes world) (ptr + layout.size) guardSize fillGuard = true then do
        let self ← World.self
        World.setSelf { self with liveBytes := wrapSub self.liveBytes layout.size }
        let withGuard ← parentLayout layout
        setBytes ptr withGuard.size fillFreed
        quarantinePush ⟨ptr, layout, entry.serial⟩
      else
        return .error (.writtenPast entry.serial ptr layout.size)

/-- `abort`: a report ends the program. -/
def orAbort (run : Run (Worlds P) (Verdict α)) : Run (Worlds P) α := do
  match ← run with
  | .ok result => return result
  | .error _ => failure

/-- `tda_debug_to_al`. -/
def toAl (P : Type) [HasBytes P] : AlVtable (Worlds P) where
  alloc layout := orAbort (alloc layout)
  allocZeroed := none
  resize := none
  remap := some fun ptr old newSize => orAbort (remap ptr old newSize)
  dealloc ptr layout := orAbort (dealloc ptr layout)

/-! ## The other functions -/

/-- `tda_debug_flush_quarantine`. -/
def flushQuarantine : Run (Worlds P) (Verdict Unit) := do
  let self ← World.self
  let _ ← assertDebug self
  Run.loop (fun _ => do
      let self ← World.self
      if self.quarantineLen > 0 then do
        match ← releaseOldest with
        | .error report => return .leave (.error report)
        | .ok () => return .again ()
      else
        return .leave (.ok ()))
    (self.quarantineLen + 1) ()

/-- `tda_debug_deinit`.  The slots go back to the default allocator, which answers as it likes also after that. -/
def deinit : Run (Worlds P) (Verdict Unit) := do
  let self ← World.self
  match self.parent with
  | none => return .ok ()
  | some _ => do
      match ← flushQuarantine with
      | .error report => return .error report
      | .ok () => do
          World.setSelf inert
          return .ok ()

/-- `tda_debug_fail_after`. -/
def setFailAfter (count : Nat) : Run (Worlds P) Unit := do
  let self ← World.self
  let _ ← assertDebug self
  World.setSelf { self with failAfter := (ckdAdd self.requests count).getD uint64Max }

end Memory
end Debug
end TerseDsa
