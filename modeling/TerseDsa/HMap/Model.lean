import TerseDsa.Alloc.Wrappers
import TerseDsa.Core.Layout

namespace TerseDsa

open Foundation

/-!
# `ds/hmap`

Separate chaining over a heap of blocks.  A block is a bucket array or a node;
an entry is one node, found through the link that points at it.  The map
itself is a value that the operations take and hand back, as the C functions
take `self` and update it in place.

The callbacks come with their `ctx` applied.  A value is optional because a
set's map has values of size 0 and passes the null pointer for them.

Every walk is bounded by the number of entries, and one step more to see the
end of the chain: a walk that went on longer would be in a cycle.
-/

/-- `tda_Hash`. -/
abbrev Hash := BitVec 64

/-- `tda_HMapNode`, with the key and the value that follow the struct. -/
structure HMapNode (K V : Type) where
  next : Option Addr
  hash : Hash
  key : K
  val : Option V

/-- What a block of a map holds. -/
inductive HMapCell (K V : Type) where
  | buckets (slots : List (Option Addr))
  | node (node : HMapNode K V)

abbrev HMapMem (K V : Type) := AlHeap (HMapCell K V)

/-- `tda_HMap`. -/
structure HMap (K : Type) where
  buckets : Option Addr
  bucketCount : Nat
  len : Nat
  key : Layout
  val : Layout
  keyOffset : Nat
  valOffset : Nat
  node : Layout
  hasher : K -> Hash
  eq : K -> K -> Bool
  al : Al

/-- The links of a chain: the slot of a bucket, or the `next` of a node. -/
inductive HMapLink where
  | bucket (idx : Nat)
  | next (node : Addr)

/-- `tda_EntryPred`: it may keep state behind its `ctx`, and look at the memory. -/
abbrev EntryPred (K V C : Type) := K -> Option V -> C -> Run (HMapMem K V) (Bool × C)

namespace HMap

variable {K V C : Type}

def bucketsBase : Nat := 8
def growthFactor : Nat := 2

/-- 2^64 / phi, odd. -/
def fibMultiplier : Hash := 0x9e3779b97f4a7c15#64

/-- `TDA_LAYOUT_OF(tda_HMapNode)`: a pointer and a hash. -/
def headerLayout : Layout := ⟨16, 8⟩

/-- `= {}`: the state after `deinit`. -/
def inert : HMap K where
  buckets := none
  bucketCount := 0
  len := 0
  key := ⟨0, 0⟩
  val := ⟨0, 0⟩
  keyOffset := 0
  valOffset := 0
  node := ⟨0, 0⟩
  hasher := fun _ => 0
  eq := fun _ _ => false
  al := none

/-- `ASSERT_HMAP`. -/
def Asserts (self : HMap K) : Prop :=
  self.key.isType = true ∧ self.al.isSome = true ∧
    (self.bucketCount = 0 <-> self.buckets = none) ∧
    (self.bucketCount = 0 ∨ isPow2 self.bucketCount = true) ∧
    (self.len = 0 ∨ 0 < self.bucketCount)

instance (self : HMap K) : Decidable self.Asserts := by
  unfold Asserts
  infer_instance

def assertHMap (self : HMap K) : Run (HMapMem K V) Unit := Run.require self.Asserts

/-- `EXPECT_SAME_HMAP`. -/
def expectSame (a b : HMap K) : Run (HMapMem K V) Unit :=
  Run.require (a.key = b.key ∧ a.val = b.val)

/-! ## Access to the blocks -/

/-- Dereference a node pointer. -/
def readNode (addr : Addr) : Run (HMapMem K V) (HMapNode K V) := do
  match ← Heap.read addr with
  | .node node => return node
  | .buckets _ => failure

def writeNode (addr : Addr) (node : HMapNode K V) : Run (HMapMem K V) Unit := do
  let _ ← readNode (V := V) (K := K) addr
  Heap.write addr (.node node)

/-- The slots of a bucket array. -/
def readSlots (array : Option Addr) : Run (HMapMem K V) (List (Option Addr)) := do
  match ← Heap.read (← Run.demand array) with
  | .buckets slots => return slots
  | .node _ => failure

/-- `array[idx]`. -/
def readSlot (array : Option Addr) (idx : Nat) : Run (HMapMem K V) (Option Addr) := do
  let slots ← readSlots array
  Run.demand slots[idx]?

/-- `array[idx] = ptr`. -/
def writeSlot (array : Option Addr) (idx : Nat) (ptr : Option Addr) :
    Run (HMapMem K V) Unit := do
  let addr ← Run.demand array
  let slots ← readSlots (some addr)
  Run.require (idx < slots.length)
  Heap.write addr (.buckets (slots.set idx ptr))

/-- `*link`. -/
def readLink (self : HMap K) : HMapLink -> Run (HMapMem K V) (Option Addr)
  | .bucket idx => readSlot self.buckets idx
  | .next addr => do
      let node ← readNode addr
      return node.next

/-- `*link = ptr`. -/
def writeLink (self : HMap K) (link : HMapLink) (ptr : Option Addr) :
    Run (HMapMem K V) Unit :=
  match link with
  | .bucket idx => writeSlot self.buckets idx ptr
  | .next addr => do
      let node ← readNode addr
      writeNode addr { node with next := ptr }

/-! ## Nodes and buckets -/

/-- `alloc_node`. -/
def allocNode (self : HMap K) (key : K) (val : Option V) (hash : Hash) :
    Run (HMapMem K V) (Option Addr) :=
  alloc self.al self.node
    (.node { next := none, hash, key, val := if self.val.size > 0 then val else none })

/-- `dealloc_node`. -/
def deallocNode (self : HMap K) (node : Addr) : Run (HMapMem K V) Unit :=
  dealloc self.al (some node) self.node

/-- The top `log2 count` bits of the mixed hash. -/
def bucketIdx (hash : Hash) (count : Nat) : Nat :=
  ((hash * fibMultiplier) >>> (64 - bitCtz count)).toNat

/-- `bucket_in`: the count has to be a power of two above 1. -/
def bucketIn (hash : Hash) (count : Nat) : Run (HMapMem K V) Nat := do
  Run.require (isPow2 count = true ∧ 1 < count)
  return bucketIdx hash count

/-- `bucket_of`. -/
def bucketOf (self : HMap K) (hash : Hash) : Run (HMapMem K V) Nat := do
  Run.require (0 < self.bucketCount)
  bucketIn hash self.bucketCount

/-- `holds_key`: the cheap hash first, so `eq` runs only when the hashes match. -/
def holdsKey (self : HMap K) (node : HMapNode K V) (key : K) (hash : Hash) : Bool :=
  node.hash == hash && self.eq node.key key

/-- `find_link`: the link that points at the entry for `key`, or the null link
that ends its chain. -/
def findLink (self : HMap K) (key : K) (hash : Hash) : Run (HMapMem K V) HMapLink := do
  let idx ← bucketOf self hash
  Run.loop (fun link => do
    match ← readLink self link with
    | none => return .leave link
    | some addr =>
        let node ← readNode addr
        if holdsKey self node key hash then
          return .leave link
        return .again (.next addr))
    (self.len + 1) (.bucket idx)

/-- `find_node`: its own walk, over nodes. -/
def findNode (self : HMap K) (key : K) (hash : Hash) : Run (HMapMem K V) (Option Addr) := do
  if self.bucketCount = 0 then
    return none
  let idx ← bucketOf self hash
  let head ← readSlot self.buckets idx
  Run.loop (fun ptr => do
    match ptr with
    | none => return .leave none
    | some addr =>
        let node ← readNode addr
        if holdsKey self node key hash then
          return .leave (some addr)
        return .again node.next)
    (self.len + 1) head

/-- `link_node`: the node becomes the head of its bucket among `count`. -/
def linkNode (array : Option Addr) (count : Nat) (addr : Addr) : Run (HMapMem K V) Unit := do
  let node ← readNode addr
  let idx ← bucketIn node.hash count
  let head ← readSlot array idx
  writeNode addr { node with next := head }
  writeSlot array idx (some addr)

/-- `remove_at`: the node at `*link` leaves its chain and is freed. -/
def removeAt (self : HMap K) (link : HMapLink) : Run (HMapMem K V) (HMap K) := do
  let addr ← Run.demand (← readLink self link)
  let node ← readNode addr
  writeLink self link node.next
  deallocNode self addr
  return { self with len := wrapSub self.len 1 }

/-- `first_from`: the first node from bucket `idx` onward. -/
def firstFrom (self : HMap K) (idx : Nat) : Run (HMapMem K V) (Option Addr) :=
  Run.loop (fun idx => do
    if idx < self.bucketCount then
      match ← readSlot self.buckets idx with
      | some addr => return .leave (some addr)
      | none => return .again (idx + 1)
    else
      return .leave none)
    (self.bucketCount + 1) idx

/-- `next_node`: down the chain, then on to the next bucket. -/
def nextNode (self : HMap K) (addr : Addr) : Run (HMapMem K V) (Option Addr) := do
  let node ← readNode addr
  match node.next with
  | some next => return some next
  | none =>
      let idx ← bucketOf self node.hash
      firstFrom self (idx + 1)

/-! ## Growth -/

/-- `buckets_for`: the smallest power of two at least `len` and the base, or 0
on overflow. -/
def bucketsFor (len : Nat) : Nat :=
  go 64 bucketsBase
where
  go : (bound count : Nat) -> Nat
    | 0, count => count
    | bound + 1, count =>
        if count < len then
          match ckdMul count growthFactor with
          | none => 0
          | some grown => go bound grown
        else count

/-- The body of `rehash`'s walks: every node of one chain goes to its bucket in
the fresh array. -/
def relinkChain (self : HMap K) (array : Option Addr) (count : Nat) (head : Option Addr) :
    Run (HMapMem K V) Unit :=
  Run.loop (fun ptr => do
    match ptr with
    | none => return .leave ()
    | some addr =>
        let node ← readNode addr
        linkNode array count addr
        return .again node.next)
    (self.len + 1) head

/-- `rehash`. -/
def rehash (self : HMap K) (newCount : Nat) : Run (HMapMem K V) (Status × HMap K) := do
  Run.require (isPow2 newCount = true)
  let fresh ← allocN self.al .ofPointer newCount (.buckets (List.replicate newCount none))
  match fresh with
  | none => return (.errNoMem, self)
  | some _ =>
      Run.countUp (fun idx _ => do
        let head ← readSlot self.buckets idx
        relinkChain self fresh newCount head) self.bucketCount 0 ()
      deallocN self.al self.buckets .ofPointer self.bucketCount
      let grown := { self with buckets := fresh, bucketCount := newCount }
      assertHMap grown
      return (.ok, grown)

/-- `reserve_buckets`. -/
def reserveBuckets (self : HMap K) (cap : Nat) : Run (HMapMem K V) (Status × HMap K) := do
  if cap ≤ self.bucketCount then
    return (.ok, self)
  if bucketsFor cap = 0 then
    return (.errNoMem, self)
  rehash self (bucketsFor cap)

/-- `reserve_one`. -/
def reserveOne (self : HMap K) : Run (HMapMem K V) (Status × HMap K) :=
  reserveBuckets self (wrapAdd self.len 1)

/-- `add_node`: the entry for a key known to be absent. -/
def addNode (self : HMap K) (key : K) (val : Option V) (hash : Hash) :
    Run (HMapMem K V) (Status × Option Addr × HMap K) := do
  -- reserve first: growing may change which bucket the node belongs to
  let (reserved, self) ← reserveOne self
  if reserved ≠ .ok then
    return (reserved, none, self)
  match ← allocNode self key val hash with
  | none => return (.errNoMem, none, self)
  | some node =>
      linkNode (V := V) (K := K) self.buckets self.bucketCount node
      let added := { self with len := wrapAdd self.len 1 }
      assertHMap added
      return (.ok, some node, added)

/-! ## Release -/

/-- `free_nodes`. -/
def freeNodes (self : HMap K) : Run (HMapMem K V) Unit :=
  Run.countUp (fun idx _ => do
    let head ← readSlot self.buckets idx
    Run.loop (fun ptr => do
      match ptr with
      | none => return .leave ()
      | some addr =>
          let node ← readNode (V := V) (K := K) addr
          deallocNode self addr
          return .again node.next)
      (self.len + 1) head) self.bucketCount 0 ()

/-- `forget_buckets`. -/
def forgetBuckets (self : HMap K) : HMap K :=
  { self with buckets := none, bucketCount := 0, len := 0 }

/-- `release_buckets`. -/
def releaseBuckets (self : HMap K) : Run (HMapMem K V) (HMap K) := do
  freeNodes (V := V) self
  deallocN self.al self.buckets .ofPointer self.bucketCount
  return forgetBuckets self

/-! ## Mods -/

/-- `tda_hmap_reserve`. -/
def reserve (self : HMap K) (newCap : Nat) : Run (HMapMem K V) (Status × HMap K) := do
  assertHMap self
  let (st, self) ← reserveBuckets self newCap
  assertHMap self
  return (st, self)

/-- `tda_hmap_insert`, with what it writes to `out_is_new`. -/
def insert (self : HMap K) (key : K) (val : Option V) :
    Run (HMapMem K V) (Status × Option Bool × HMap K) := do
  assertHMap self
  Run.require (val.isSome = true ∨ self.val.size = 0)
  let hash := self.hasher key
  match ← findNode self key hash with
  | some found =>
      if self.val.size > 0 then
        let node ← readNode found
        writeNode found { node with val := val }
      return (.ok, some false, self)
  | none =>
      let (st, _, self) ← addNode self key val hash
      assertHMap self
      if st ≠ .ok then
        return (st, none, self)
      return (.ok, some true, self)

/-- `tda_hmap_get_or_insert`, with what it writes to `out_node`. -/
def getOrInsert (self : HMap K) (key : K) (valIfAbsent : Option V) :
    Run (HMapMem K V) (Status × Option Addr × HMap K) := do
  assertHMap self
  Run.require (valIfAbsent.isSome = true ∨ self.val.size = 0)
  let hash := self.hasher key
  match ← findNode (V := V) self key hash with
  | some found => return (.ok, some found, self)
  | none =>
      let (st, node, self) ← addNode self key valIfAbsent hash
      assertHMap self
      return (st, node, self)

/-- The loop of `tda_hmap_extend` and of `tda_hset_extend`: insert pair by pair
and stop at the first failure. -/
def insertAll (self : HMap K) (pairs : List (K × Option V)) :
    Run (HMapMem K V) (Status × HMap K) :=
  match pairs with
  | [] => return (.ok, self)
  | (key, val) :: rest => do
      let (st, _, self) ← insert self key val
      if st ≠ .ok then
        return (st, self)
      insertAll self rest

/-- `tda_hmap_extend`. -/
def extend (self : HMap K) (keys : SpanView K) (vals : SpanView V) :
    Run (HMapMem K V) (Status × HMap K) := do
  assertHMap self
  Run.require (self.key = keys.elem)
  Run.require (self.val = vals.elem)
  Run.require (keys.len = vals.len)
  let (st, self) ← insertAll self (keys.elems.zip (vals.elems.map some))
  assertHMap self
  return (st, self)

/-- `tda_hmap_take`, with what it writes to `out_key` and `out_val`. -/
def take (self : HMap K) (key : K) :
    Run (HMapMem K V) (Bool × Option (K × Option V) × HMap K) := do
  assertHMap self
  if self.bucketCount = 0 then
    return (false, none, self)
  let link ← findLink (V := V) self key (self.hasher key)
  match ← readLink self link with
  | none => return (false, none, self)
  | some addr =>
      let node ← readNode addr
      let self ← removeAt (V := V) self link
      assertHMap self
      return (true, some (node.key, node.val), self)

/-- `tda_hmap_remove`. -/
def remove (self : HMap K) (key : K) : Run (HMapMem K V) (Bool × HMap K) := do
  assertHMap self
  let (removed, _, self) ← take (V := V) self key
  assertHMap self
  return (removed, self)

/-- `tda_hmap_remove_node`. -/
def removeNode (self : HMap K) (addr : Addr) : Run (HMapMem K V) (HMap K) := do
  assertHMap self
  Run.require (0 < self.len)
  let node ← readNode (V := V) (K := K) addr
  let idx ← bucketOf self node.hash
  let link ← Run.loop (fun link => do
    match ← readLink (V := V) self link with
    | none => return .leave link
    | some cur => if cur = addr then return .leave link else return .again (.next cur))
    (self.len + 1) (.bucket idx)
  let found ← readLink self link
  Run.require (found = some addr)
  let self ← removeAt self link
  assertHMap self
  return self

/-- `tda_hmap_retain`, with the state the predicate leaves behind its `ctx`. -/
def retain (self : HMap K) (pred : EntryPred K V C) (ctx : C) :
    Run (HMapMem K V) (HMap K × C) := do
  assertHMap self
  let (self, ctx) ← Run.countUp (fun idx vars =>
    Run.loop (fun (self, ctx, link) => do
      match ← readLink self link with
      | none => return .leave (self, ctx)
      | some addr =>
          let node ← readNode addr
          let (keep, ctx) ← pred node.key node.val ctx
          if keep then
            return .again (self, ctx, .next addr)
          let self ← removeAt self link
          return .again (self, ctx, link))
      (vars.1.len + 1) (vars.1, vars.2, .bucket idx)) self.bucketCount 0 (self, ctx)
  assertHMap self
  return (self, ctx)

/-- `tda_hmap_clear`. -/
def clear (self : HMap K) : Run (HMapMem K V) (HMap K) := do
  assertHMap self
  freeNodes (V := V) self
  Run.countUp (fun idx _ => writeSlot self.buckets idx none) self.bucketCount 0 ()
  let self := { self with len := 0 }
  assertHMap self
  return self

/-- `tda_hmap_shrink_to_fit`. -/
def shrinkToFit (self : HMap K) : Run (HMapMem K V) (Status × HMap K) := do
  assertHMap self
  if self.len = 0 then
    let self ← releaseBuckets self
    assertHMap self
    return (.ok, self)
  let want := bucketsFor self.len
  if want = 0 ∨ want ≥ self.bucketCount then
    return (.ok, self)
  let (st, self) ← rehash self want
  assertHMap self
  return (st, self)

/-! ## Lookup and walks -/

/-- `tda_hmap_get`: what the value pointer points at. -/
def get (self : HMap K) (key : K) : Run (HMapMem K V) (Option (Option V)) := do
  assertHMap self
  match ← findNode (V := V) self key (self.hasher key) with
  | none => return none
  | some addr =>
      let node ← readNode addr
      return some node.val

/-- `tda_hmap_contains`. -/
def contains (self : HMap K) (key : K) : Run (HMapMem K V) Bool := do
  assertHMap self
  let found ← findNode (V := V) self key (self.hasher key)
  return found.isSome

/-- `tda_hmap_find`. -/
def find (self : HMap K) (key : K) : Run (HMapMem K V) (Option Addr) := do
  assertHMap self
  findNode self key (self.hasher key)

/-- `tda_hmap_first_node`. -/
def firstNode (self : HMap K) : Run (HMapMem K V) (Option Addr) := do
  assertHMap self
  firstFrom self 0

/-- `tda_hmap_node_next`. -/
def nodeNext (self : HMap K) (node : Addr) : Run (HMapMem K V) (Option Addr) := do
  assertHMap self
  nextNode self node

/-- `tda_hmap_node_key`. -/
def nodeKey (self : HMap K) (addr : Addr) : Run (HMapMem K V) K := do
  assertHMap self
  let node ← readNode (V := V) addr
  return node.key

/-- `tda_hmap_node_val`. -/
def nodeVal (self : HMap K) (addr : Addr) : Run (HMapMem K V) (Option V) := do
  assertHMap self
  let node ← readNode (K := K) addr
  return node.val

/-- `eq_impl` for two different maps; the values are compared by `valEq`. -/
def eqImpl (a b : HMap K) (valEq : Option V -> Option V -> Bool) :
    Run (HMapMem K V) Bool := do
  if a.len ≠ b.len then
    return false
  Run.loop (fun idx => do
    if idx < a.bucketCount then
      let head ← readSlot a.buckets idx
      let same ← Run.loop (fun ptr => do
        match ptr with
        | none => return .leave true
        | some addr =>
            let node ← readNode addr
            match ← findNode (V := V) b node.key (b.hasher node.key) with
            | none => return .leave false
            | some found =>
                let other ← readNode (K := K) found
                if valEq node.val other.val then
                  return .again node.next
                return .leave false)
        (a.len + 1) head
      if same then
        return .again (idx + 1)
      return .leave false
    else
      return .leave true)
    (a.bucketCount + 1) 0

/-- `TDA_HMAP_FOR_EACH`: the walk goes on from the node after the body has run;
a body that leaves has returned from the function around it. -/
def forEach {β γ : Type} (self : HMap K) (body : Addr -> β -> Run (HMapMem K V) (Run.Round β γ))
    (done : β -> γ) (b : β) : Run (HMapMem K V) γ := do
  let first ← firstNode self
  Run.loop (fun (ptr, b) => do
    match ptr with
    | none => return .leave (done b)
    | some node =>
        match ← body node b with
        | .leave result => return .leave result
        | .again b =>
            let next ← nodeNext self node
            return .again (next, b))
    (self.len + 1) (first, b)

/-- `TDA_HMAP_FOR_EACH_SAFE`: the next node is taken before the body runs, so
the body may drop the one it is on. -/
def forEachSafe {β : Type} (self : HMap K)
    (body : Addr -> HMap K -> β -> Run (HMapMem K V) (HMap K × β)) (b : β) :
    Run (HMapMem K V) (HMap K × β) := do
  let first ← firstNode self
  Run.loop (fun (ptr, self, b) => do
    match ptr with
    | none => return .leave (self, b)
    | some node =>
        let after ← nodeNext self node
        let (self, b) ← body node self b
        return .again (after, self, b))
    (self.len + 1) (first, self, b)

/-! ## Lifetime and copy -/

/-- The node layout of `tda_hmap_init_raw_`, with the offsets of key and value. -/
def nodeLayout (key val : Layout) : Option (Layout × Nat × Nat) := do
  let (node, keyOffset) ← headerLayout.ckdExtend key
  if val.size > 0 then
    let (node, valOffset) ← node.ckdExtend val
    let node ← node.ckdPad
    return (node, keyOffset, valOffset)
  else
    let node ← node.ckdPad
    return (node, keyOffset, keyOffset + key.size)

/-- `tda_hmap_init_raw_`, with the map it writes to `out` on success. -/
def initRaw (cap : Nat) (key val : Layout) (hasher : K -> Hash) (eq : K -> K -> Bool)
    (al : Al) : Run (HMapMem K V) (Status × Option (HMap K)) := do
  Run.require (key.isType = true)
  Run.require (val.isType = true ∨ (val.size = 0 ∧ Layout.isAlign val.align = true))
  Run.require (al.isSome = true)
  let (node, keyOffset, valOffset) ← Run.demand (nodeLayout key val)
  let obj : HMap K :=
    { buckets := none, bucketCount := 0, len := 0, key, val, keyOffset, valOffset, node,
      hasher, eq, al }
  if cap > 0 then
    let (st, obj) ← reserve obj cap
    if st ≠ .ok then
      return (st, none)
    assertHMap obj
    return (.ok, some obj)
  assertHMap obj
  return (.ok, some obj)

/-- `tda_hmap_init_cap`. -/
def initCap (cap : Nat) (key val : Layout) (hasher : K -> Hash) (eq : K -> K -> Bool)
    (al : Al) : Run (HMapMem K V) (Status × Option (HMap K)) := do
  Run.require (val.isType = true)
  initRaw cap key val hasher eq al

/-- `tda_hmap_init`: with no room asked for nothing is allocated, so it cannot fail. -/
def init (key val : Layout) (hasher : K -> Hash) (eq : K -> K -> Bool) (al : Al) :
    Run (HMapMem K V) (HMap K) := do
  Run.require (val.isType = true)
  let (st, out) ← initRaw 0 key val hasher eq al
  Run.require (st = .ok)
  Run.demand out

/-- `tda_hmap_deinit`. -/
def deinit (self : HMap K) : Run (HMapMem K V) (HMap K) := do
  if self.al = none then
    Run.require (self.buckets = none)
    return self
  assertHMap self
  let _ ← releaseBuckets (V := V) self
  return inert

/-- `tda_hmap_from_spans`. -/
def fromSpans (keys : SpanView K) (vals : SpanView V) (hasher : K -> Hash)
    (eq : K -> K -> Bool) (al : Al) : Run (HMapMem K V) (Status × Option (HMap K)) := do
  Run.require (keys.len = vals.len)
  let (st, out) ← initCap keys.len keys.elem vals.elem hasher eq al
  if st ≠ .ok then
    return (st, none)
  let (st, obj) ← extend (← Run.demand out) keys vals
  if st ≠ .ok then
    let _ ← deinit (V := V) obj
    return (st, none)
  return (.ok, some obj)

/-- The loop of `tda_hmap_copy_with`: every node of `self` straight into `obj`
under its cached hash, with no search and no hasher call. -/
def copyNodes (self obj : HMap K) : Run (HMapMem K V) (Status × HMap K) := do
  let first ← firstFrom (V := V) self 0
  Run.loop (fun (ptr, obj) => do
    match ptr with
    | none => return .leave (.ok, obj)
    | some addr =>
        let node ← readNode addr
        let val := if self.val.size > 0 then node.val else none
        let (st, _, obj) ← addNode obj node.key val node.hash
        if st ≠ .ok then
          return .leave (st, obj)
        let next ← nextNode self addr
        return .again (next, obj))
    (self.len + 1) (first, obj)

/-- `tda_hmap_copy_with`. -/
def copyWith (self : HMap K) (al : Al) : Run (HMapMem K V) (Status × Option (HMap K)) := do
  assertHMap self
  let (st, out) ← initRaw (V := V) self.len self.key self.val self.hasher self.eq al
  if st ≠ .ok then
    return (st, none)
  let (st, obj) ← copyNodes self (← Run.demand out)
  if st ≠ .ok then
    let _ ← deinit (V := V) obj
    return (st, none)
  return (.ok, some obj)

end HMap
end TerseDsa
