import TerseDsa.Core.Size
import TerseDsa.Core.Layout
import TerseDsa.Foundation.Run

namespace TerseDsa

open Foundation

/-!
# The table of `alloc/debug`

The records of the live blocks, in slots that are found by the hash of an
address and linear probing.  The slots come from the default allocator, which
answers as it likes.
-/

/-- `BlockRecord`; 0 as the address marks an empty slot. -/
structure BlockRecord where
  addr : Nat
  layout : Layout
  serial : Nat
  deriving DecidableEq

/-- `(BlockRecord){}`. -/
def BlockRecord.empty : BlockRecord := ⟨0, ⟨0, 0⟩, 0⟩

/-- `TDA_LAYOUT_OF(BlockRecord)`. -/
def BlockRecord.layoutOf : Layout := ⟨32, 8⟩

/-- `BlockTable`. -/
structure BlockTable where
  slots : List BlockRecord
  cap : Nat
  len : Nat

/-- `tda_al_default`, as far as the table sees it: which requests it grants. -/
structure DefaultAl where
  grants : Nat -> Bool
  asked : Nat

namespace DefaultAl

/-- `TDA_ALLOC_ZEROED(BlockRecord, tda_al_default(), count)`. -/
def allocZeroed (count : Nat) : Run DefaultAl (Option (List BlockRecord)) := do
  match BlockRecord.layoutOf.ckdArray count with
  | none => return none
  | some layout =>
      if layout.size = 0 then
        return none
      let self ← get
      set { self with asked := self.asked + 1 }
      if self.grants self.asked = true then
        return some (List.replicate count .empty)
      else
        return none

end DefaultAl

namespace BlockTable

variable {S : Type}

def minCap : Nat := 64

/-- `= {}`. -/
def inert : BlockTable := ⟨[], 0, 0⟩

/-- `table->slots[i]`. -/
def slot (table : BlockTable) (i : Nat) : Run S BlockRecord := Run.demand table.slots[i]?

/-- `table->slots[i] = record`. -/
def setSlot (table : BlockTable) (i : Nat) (record : BlockRecord) : Run S BlockTable := do
  Run.require (i < table.slots.length)
  return { table with slots := table.slots.set i record }

variable (hash : Nat -> Nat)

/-! ## Any hash

The functions of the table, with any hash in the place of `tda_hash_u64`.  Nothing
that the table does rests on which one it is.
-/

/-- Where the search for an address starts. -/
def homeBy (table : BlockTable) (addr : Nat) : Nat := hash addr &&& (table.cap - 1)

/-- The slot of an address, or the empty one that ends its run. -/
def probeBy (table : BlockTable) (addr : Nat) : Run S Nat := do
  Run.require (0 < table.cap)
  Run.loop (fun i => do
      let record ← table.slot i
      if record.addr ≠ 0 ∧ record.addr ≠ addr then
        return .again ((i + 1) &&& (table.cap - 1))
      else
        return .leave i)
    (table.cap + 1) (table.homeBy hash addr)

/-- One round of the loop in `table_grow`: the `i`th old record goes to its place. -/
def rehashBy (old : BlockTable) (i : Nat) (table : BlockTable) : Run S BlockTable := do
  let record ← old.slot i
  if record.addr ≠ 0 then do
    let place ← table.probeBy hash record.addr
    table.setSlot place record
  else
    return table

/-- What `table_grow` calls `new_cap`. -/
def newCap (table : BlockTable) : Nat := if table.cap ≠ 0 then wrapMul 2 table.cap else minCap

/-- All records go to twice as many slots. -/
def growBy (table : BlockTable) : Run DefaultAl (Bool × BlockTable) := do
  match ← DefaultAl.allocZeroed table.newCap with
  | none => return (false, table)
  | some slots => do
      let table ← Run.countUp (table.rehashBy hash) table.cap 0 ⟨slots, table.newCap, table.len⟩
      return (true, table)

/-- The last lines of `table_insert`. -/
def placeBy (table : BlockTable) (entry : BlockRecord) : Run S BlockTable := do
  let i ← table.probeBy hash entry.addr
  let before ← table.slot i
  Run.require (before.addr = 0)
  let table ← table.setSlot i entry
  return { table with len := table.len + 1 }

/-- A record is put in, unless there is no room for it. -/
def insertBy (table : BlockTable) (entry : BlockRecord) : Run DefaultAl (Bool × BlockTable) := do
  Run.require (entry.addr ≠ 0)
  if wrapMul 2 (table.len + 1) > table.cap then do
    let (grown, table) ← table.growBy hash
    if grown = true then do
      let table ← table.placeBy hash entry
      return (true, table)
    else
      return (false, table)
  else do
    let table ← table.placeBy hash entry
    return (true, table)

/-- The record of an address. -/
def findBy (table : BlockTable) (addr : Nat) : Run S (Option BlockRecord) := do
  if table.cap = 0 then
    return none
  let i ← table.probeBy hash addr
  let record ← table.slot i
  if record.addr = 0 then
    return none
  else
    return some record

/-- The loop in `table_take`: later records of the run move back into the hole. -/
def closeHoleBy (table : BlockTable) (hole : Nat) : Run S BlockTable :=
  let mask := table.cap - 1
  Run.loop (fun (table, hole, i) => do
      let record ← table.slot i
      if record.addr ≠ 0 then do
        let home := table.homeBy hash record.addr
        if wrapSub i home &&& mask ≥ wrapSub i hole &&& mask then do
          let table ← table.setSlot hole record
          let table ← table.setSlot i .empty
          return .again (table, i, (i + 1) &&& mask)
        else
          return .again (table, hole, (i + 1) &&& mask)
      else
        return .leave table)
    (table.cap + 1) (table, hole, (hole + 1) &&& mask)

/-- The record of an address is taken out. -/
def takeBy (table : BlockTable) (addr : Nat) : Run S (Option BlockRecord × BlockTable) := do
  if table.cap = 0 then
    return (none, table)
  let hole ← table.probeBy hash addr
  let record ← table.slot hole
  if record.addr = 0 then
    return (none, table)
  else do
    let table ← table.setSlot hole .empty
    let table ← closeHoleBy hash { table with len := table.len - 1 } hole
    return (some record, table)

/-! ## The hash of the code -/

/-- `table_home`. -/
def home (table : BlockTable) (addr : Nat) : Nat := table.homeBy hashU64 addr

/-- `table_probe`. -/
def probe (table : BlockTable) (addr : Nat) : Run S Nat := table.probeBy hashU64 addr

/-- `table_grow`. -/
def grow (table : BlockTable) : Run DefaultAl (Bool × BlockTable) := table.growBy hashU64

/-- `table_insert`. -/
def insert (table : BlockTable) (entry : BlockRecord) : Run DefaultAl (Bool × BlockTable) :=
  table.insertBy hashU64 entry

/-- `table_find`. -/
def find (table : BlockTable) (addr : Nat) : Run S (Option BlockRecord) := table.findBy hashU64 addr

/-- `table_take`. -/
def take (table : BlockTable) (addr : Nat) : Run S (Option BlockRecord × BlockTable) := table.takeBy hashU64 addr

end BlockTable
end TerseDsa
