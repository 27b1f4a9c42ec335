import TerseDsa.HMap.Model

namespace TerseDsa

open Foundation

/-!
# `ds/hset`

A set wraps a map whose values have size 0: chaining, growth and the allocator
are the map's, and the set only limits which operations are forwarded.  The
set operations come here without their test for `self == other`, which is made
where objects have identities; `self` and `other` are different objects.
-/

/-- `tda_HSet`, a struct with the map as its only field. -/
abbrev HSet (K : Type) := HMap K

namespace HSet

variable {K V C : Type}

/-- `ASSERT_HSET`. -/
def assertHSet (self : HSet K) : Run (HMapMem K V) Unit := do
  Run.require (self.al.isSome)
  Run.require (self.val.size = 0)

/-- `EXPECT_SAME_HSET`. -/
def expectSame (a b : HSet K) : Run (HMapMem K V) Unit := Run.require (a.key = b.key)

/-- `tda_Pred` on keys. -/
abbrev KeyPred (K V C : Type) := K -> C -> Run (HMapMem K V) (Bool × C)

/-! ## Lifetime -/

/-- The value layout of a set's map: nothing follows the key. -/
def noVal : Layout := ⟨0, 1⟩

/-- `tda_hset_init_cap`. -/
def initCap (cap : Nat) (key : Layout) (hasher : K -> Hash) (eq : K -> K -> Bool) (al : Al) :
    Run (HMapMem K V) (Status × Option (HSet K)) := do
  Run.require (key.isType = true)
  Run.require (al.isSome)
  HMap.initRaw cap key noVal hasher eq al

/-- `tda_hset_init`. -/
def init (key : Layout) (hasher : K -> Hash) (eq : K -> K -> Bool) (al : Al) :
    Run (HMapMem K V) (HSet K) := do
  let (st, out) ← initCap 0 key hasher eq al
  Run.require (st = .ok)
  Run.demand out

/-- `tda_hset_deinit`. -/
def deinit (self : HSet K) : Run (HMapMem K V) (HSet K) := HMap.deinit self

/-- `tda_hset_copy_with`. -/
def copyWith (self : HSet K) (al : Al) : Run (HMapMem K V) (Status × Option (HSet K)) := do
  assertHSet self
  HMap.copyWith self al

/-! ## Lookup -/

/-- `tda_hset_contains`. -/
def contains (self : HSet K) (key : K) : Run (HMapMem K V) Bool := do
  assertHSet self
  HMap.contains self key

/-! ## Mods -/

/-- `tda_hset_insert`. -/
def insert (self : HSet K) (key : K) : Run (HMapMem K V) (Status × Option Bool × HSet K) := do
  assertHSet self
  let (st, isNew, self) ← HMap.insert self key none
  assertHSet self
  return (st, isNew, self)

/-- `tda_hset_extend`. -/
def extend (self : HSet K) (src : SpanView K) : Run (HMapMem K V) (Status × HSet K) := do
  assertHSet self
  Run.require (self.key = src.elem)
  let (st, self) ← HMap.insertAll self (src.elems.map fun key => (key, none))
  assertHSet self
  return (st, self)

/-- `tda_hset_from_span`. -/
def fromSpan (s : SpanView K) (hasher : K -> Hash) (eq : K -> K -> Bool) (al : Al) :
    Run (HMapMem K V) (Status × Option (HSet K)) := do
  let (st, out) ← initCap s.len s.elem hasher eq al
  if st ≠ .ok then
    return (st, none)
  let (st, obj) ← extend (← Run.demand out) s
  if st ≠ .ok then
    let _ ← deinit (V := V) obj
    return (st, none)
  return (.ok, some obj)

/-- `tda_hset_remove`. -/
def remove (self : HSet K) (key : K) : Run (HMapMem K V) (Bool × HSet K) := do
  assertHSet self
  let (removed, self) ← HMap.remove self key
  assertHSet self
  return (removed, self)

/-- `tda_hset_remove_node`. -/
def removeNode (self : HSet K) (node : Addr) : Run (HMapMem K V) (HSet K) := do
  assertHSet self
  let self ← HMap.removeNode self node
  assertHSet self
  return self

/-- `tda_hset_take`, with what it writes to `out_key`. -/
def take (self : HSet K) (key : K) : Run (HMapMem K V) (Bool × Option K × HSet K) := do
  assertHSet self
  let (taken, entry, self) ← HMap.take self key
  assertHSet self
  return (taken, entry.map Prod.fst, self)

/-- `tda_hset_retain`; the map's predicate passes the key on. -/
def retain (self : HSet K) (pred : KeyPred K V C) (ctx : C) :
    Run (HMapMem K V) (HSet K × C) := do
  assertHSet self
  let (self, ctx) ← HMap.retain self (fun key _ ctx => pred key ctx) ctx
  assertHSet self
  return (self, ctx)

/-- `tda_hset_clear`. -/
def clear (self : HSet K) : Run (HMapMem K V) (HSet K) := do
  assertHSet self
  let self ← HMap.clear self
  assertHSet self
  return self

/-- `tda_hset_reserve`. -/
def reserve (self : HSet K) (newCap : Nat) : Run (HMapMem K V) (Status × HSet K) := do
  assertHSet self
  let (st, self) ← HMap.reserve self newCap
  assertHSet self
  return (st, self)

/-- `tda_hset_shrink_to_fit`. -/
def shrinkToFit (self : HSet K) : Run (HMapMem K V) (Status × HSet K) := do
  assertHSet self
  let (st, self) ← HMap.shrinkToFit self
  assertHSet self
  return (st, self)

/-! ## Set operations on two objects -/

/-- `held_by`: whether the map holds the key. -/
def heldBy (map : HMap K) : EntryPred K V Unit := fun key _ _ => do
  let held ← HMap.contains map key
  return (held, ())

/-- `not_held_by`. -/
def notHeldBy (map : HMap K) : EntryPred K V Unit := fun key _ _ => do
  let held ← HMap.contains map key
  return (!held, ())

/-- The walk of `tda_hset_union`: every key of `other` goes into `self`, until
one is refused. -/
def uniteAll (self other : HSet K) : Run (HMapMem K V) (Status × HSet K) :=
  HMap.forEach other (fun node self => do
    let key ← HMap.nodeKey (V := V) other node
    let (st, _, self) ← HMap.insert self key none
    if st ≠ .ok then
      return .leave (st, self)
    return .again self) (fun self => (.ok, self)) self

/-- The walk of `tda_hset_difference` over the shorter `other`. -/
def removeAll (self other : HSet K) : Run (HMapMem K V) (HSet K) :=
  HMap.forEach other (fun node self => do
    let key ← HMap.nodeKey (V := V) other node
    let (_, self) ← HMap.remove (V := V) self key
    return .again self) id self

/-- The walk of `tda_hset_symmetric_difference`: each key of `other` flips. -/
def flipAll (self other : HSet K) : Run (HMapMem K V) (Status × HSet K) :=
  HMap.forEach other (fun node self => do
    let key ← HMap.nodeKey (V := V) other node
    let (removed, self) ← HMap.remove (V := V) self key
    if removed then
      return .again self
    let (st, _, self) ← HMap.insert self key none
    if st ≠ .ok then
      return .leave (st, self)
    return .again self) (fun self => (.ok, self)) self

/-- `tda_hset_union` of two objects. -/
def union (self other : HSet K) : Run (HMapMem K V) (Status × HSet K) := do
  let (st, self) ← uniteAll self other
  assertHSet self
  return (st, self)

/-- `tda_hset_intersection` of two objects. -/
def intersection (self other : HSet K) : Run (HMapMem K V) (HSet K) := do
  let (self, _) ← HMap.retain self (heldBy other) ()
  assertHSet self
  return self

/-- `tda_hset_difference` of two objects: the shorter one is walked. -/
def difference (self other : HSet K) : Run (HMapMem K V) (HSet K) := do
  if other.len < self.len then
    let self ← removeAll self other
    assertHSet self
    return self
  let (self, _) ← HMap.retain self (notHeldBy other) ()
  assertHSet self
  return self

/-- `tda_hset_symmetric_difference` of two objects. -/
def symmetricDifference (self other : HSet K) : Run (HMapMem K V) (Status × HSet K) := do
  let (st, self) ← flipAll self other
  assertHSet self
  return (st, self)

/-- `keys_all_in`: whether every key of `a` is in `b`. -/
def keysAllIn (a b : HMap K) : Run (HMapMem K V) Bool :=
  HMap.forEach a (fun node _ => do
    let key ← HMap.nodeKey (V := V) a node
    if ← HMap.contains (V := V) b key then
      return .again ()
    return .leave false) (fun _ => true) ()

/-- The walk of `tda_hset_intersects`. -/
def anyKeyIn (walked asked : HMap K) : Run (HMapMem K V) Bool :=
  HMap.forEach walked (fun node _ => do
    let key ← HMap.nodeKey (V := V) walked node
    if ← HMap.contains (V := V) asked key then
      return .leave true
    return .again ()) (fun _ => false) ()

end HSet
end TerseDsa
