import TerseDsa.HMap.Calls
import TerseDsa.Foundation.Objects

namespace TerseDsa

open Foundation

/-!
# Maps and sets as objects

Operations that take two objects may be given one object twice, and some write
an object through `out`.  Here objects have identities: they are numbered
variables, and beside them is the memory they share.  `Call` is any public
operation of maps and sets on such objects, with its arguments, and
`Call.Allowed` is what the caller has to see to before it.
-/

variable {K V C α : Type}

/-- The map and set variables of a program, and its memory. -/
abbrev HMapObjects (K V : Type) := Objects (HMap K) AlTag (HMapCell K V)

namespace HMapObjects

open Objects

/-! ## Assignment and exchange of maps -/

/-- `tda_hmap_copy_assign`. -/
def copyAssign (self other : Nat) : Run (HMapObjects K V) Status := do
  let a ← load self
  let b ← load other
  within (HMap.assertHMap a)
  within (HMap.assertHMap b)
  within (HMap.expectSame a b)
  if self = other then
    return .ok
  -- build the clone first, so a refusal leaves `self` unchanged
  let (st, clone) ← within (HMap.copyWith b a.al)
  if st ≠ .ok then
    return st
  let _ ← within (HMap.deinit a)
  let clone ← Run.demand clone
  store self clone
  within (HMap.assertHMap clone)
  return .ok

/-- `tda_hmap_move_assign`. -/
def moveAssign (self other : Nat) : Run (HMapObjects K V) Unit := do
  let a ← load self
  let b ← load other
  within (HMap.assertHMap b)
  if a.al.isSome then
    within (HMap.assertHMap a)
    within (HMap.expectSame a b)
  if self = other then
    return ()
  store self (← within (HMap.deinit a))
  store self b
  store other (HMap.forgetBuckets b)
  within (HMap.assertHMap b)
  within (HMap.assertHMap (HMap.forgetBuckets b))

/-- `tda_hmap_swap`. -/
def swap (self other : Nat) : Run (HMapObjects K V) Unit := do
  let a ← load self
  let b ← load other
  within (HMap.assertHMap a)
  within (HMap.assertHMap b)
  within (HMap.expectSame a b)
  if self = other then
    return ()
  store self b
  store other a
  within (HMap.assertHMap b)
  within (HMap.assertHMap a)

/-- `tda_hmap_eq` and `tda_hmap_eq_by`. -/
def eq (self other : Nat) (valEq : Option V -> Option V -> Bool) :
    Run (HMapObjects K V) Bool := do
  let a ← load self
  let b ← load other
  within (HMap.assertHMap a)
  within (HMap.assertHMap b)
  within (HMap.expectSame a b)
  if self = other then
    return true
  within (HMap.eqImpl a b valEq)

/-! ## Sets -/

/-- The checks every operation on two sets starts with. -/
def assertPair (self other : Nat) : Run (HMapObjects K V) (HSet K × HSet K) := do
  let a ← load self
  let b ← load other
  within (HSet.assertHSet a)
  within (HSet.assertHSet b)
  within (HSet.expectSame a b)
  return (a, b)

/-- `tda_hset_copy_assign`. -/
def setCopyAssign (self other : Nat) : Run (HMapObjects K V) Status := do
  let _ ← assertPair self other
  let st ← copyAssign self other
  within (HSet.assertHSet (← load self))
  return st

/-- `tda_hset_move_assign`. -/
def setMoveAssign (self other : Nat) : Run (HMapObjects K V) Unit := do
  let a ← load self
  let b ← load other
  within (HSet.assertHSet b)
  if a.al.isSome then
    within (HSet.assertHSet a)
    within (HSet.expectSame a b)
  moveAssign self other
  within (HSet.assertHSet (← load self))
  within (HSet.assertHSet (← load other))

/-- `tda_hset_swap`. -/
def setSwap (self other : Nat) : Run (HMapObjects K V) Unit := do
  let _ ← assertPair self other
  swap self other
  within (HSet.assertHSet (← load self))
  within (HSet.assertHSet (← load other))

/-- What a set operation does when `self == other`. -/
def onSame (op : PairOp) (self : HSet K) : Run (HMapMem K V) (HSet K) :=
  match op with
  | .union | .intersection => return self
  | .difference | .symmetricDifference => do
      let self ← HMap.clear self
      HSet.assertHSet self
      return self

/-- `tda_hset_union`, `intersection`, `difference` and `symmetric_difference`. -/
def pair (op : PairOp) (self other : Nat) : Run (HMapObjects K V) Unit := do
  let (a, b) ← assertPair self other
  if self = other then
    store self (← within (onSame op a))
  else
    store self (← within (op.run a b))

/-- `tda_hset_eq`. -/
def setEq (self other : Nat) : Run (HMapObjects K V) Bool := do
  let (a, b) ← assertPair self other
  if self = other then
    return true
  if a.len ≠ b.len then
    return false
  within (HSet.keysAllIn a b)

/-- `tda_hset_is_subset`. -/
def isSubset (self other : Nat) : Run (HMapObjects K V) Bool := do
  let (a, b) ← assertPair self other
  if self = other then
    return true
  if a.len > b.len then
    return false
  within (HSet.keysAllIn a b)

/-- `tda_hset_intersects`: the shorter set is walked. -/
def intersects (self other : Nat) : Run (HMapObjects K V) Bool := do
  let (a, b) ← assertPair self other
  if b.len < a.len then
    within (HSet.anyKeyIn b a)
  else
    within (HSet.anyKeyIn a b)

/-- Write a constructor's object to `out` if there is one. -/
def fill (out : Nat) (result : Status × Option (HMap K)) : Run (HMapObjects K V) Status := do
  match result with
  | (st, some map) =>
      store out map
      return st
  | (st, none) => return st

end HMapObjects

/-! ## Calls -/

/-- The lookups and walk steps on one object. -/
inductive MapQuery (K : Type) where
  | get (key : K)
  | contains (key : K)
  | find (key : K)
  | firstNode
  | nodeNext (node : Addr)
  | nodeKey (node : Addr)
  | nodeVal (node : Addr)

/-- Ask, and drop the answer. -/
def MapQuery.run : MapQuery K -> HMap K -> Run (HMapMem K V) Unit
  | get key, map => do let _ ← map.get key
  | contains key, map => do let _ ← map.contains (V := V) key
  | find key, map => do let _ ← map.find key
  | firstNode, map => do let _ ← map.firstNode
  | nodeNext node, map => do let _ ← map.nodeNext node
  | nodeKey node, map => do let _ ← map.nodeKey (V := V) node
  | nodeVal node, map => do let _ ← map.nodeVal node

def MapQuery.Allowed (map : HMap K) (heap : HMapMem K V) : MapQuery K -> Prop
  | nodeNext node | nodeKey node | nodeVal node => HMap.Walked map heap node
  | _ => True

/-- The comparisons of two objects. -/
inductive PairQuery (V : Type) where
  | eq (valEq : Option V -> Option V -> Bool)
  | setEq
  | isSubset
  | intersects

def PairQuery.run : PairQuery V -> Nat -> Nat -> Run (HMapObjects K V) Bool
  | eq valEq, self, other => HMapObjects.eq self other valEq
  | setEq, self, other => HMapObjects.setEq self other
  | isSubset, self, other => HMapObjects.isSubset self other
  | intersects, self, other => HMapObjects.intersects self other

/-- The constructors that write to `out` only when they succeed. -/
inductive Maker (K V : Type) where
  | initCap (cap : Nat) (key val : Layout) (hasher : K -> Hash) (eq : K -> K -> Bool) (al : Al)
  | fromSpans (keys : SpanView K) (vals : SpanView V) (hasher : K -> Hash) (eq : K -> K -> Bool)
      (al : Al)
  | copy (self : Nat)
  | copyWith (self : Nat) (al : Al)
  | setInitCap (cap : Nat) (key : Layout) (hasher : K -> Hash) (eq : K -> K -> Bool) (al : Al)
  | setFromSpan (s : SpanView K) (hasher : K -> Hash) (eq : K -> K -> Bool) (al : Al)
  | setCopy (self : Nat)
  | setCopyWith (self : Nat) (al : Al)

namespace Maker

open Objects

/-- Build the object. -/
def make : Maker K V -> Run (HMapObjects K V) (Status × Option (HMap K))
  | initCap cap key val hasher eq al => within (HMap.initCap cap key val hasher eq al)
  | fromSpans keys vals hasher eq al => within (HMap.fromSpans keys vals hasher eq al)
  | copy self => do
      let map ← load self
      within (HMap.assertHMap map)
      within (HMap.copyWith map map.al)
  | copyWith self al => do
      let map ← load self
      within (HMap.copyWith map al)
  | setInitCap cap key hasher eq al => within (HSet.initCap cap key hasher eq al)
  | setFromSpan s hasher eq al => within (HSet.fromSpan s hasher eq al)
  | setCopy self => do
      let map ← load self
      within (HSet.assertHSet map)
      within (HSet.copyWith map map.al)
  | setCopyWith self al => do
      let map ← load self
      within (HSet.copyWith map al)

/-- A node for the layouts fits in memory, and the allocator has hooks. -/
def Builds (key val : Layout) (al : Al) : Prop :=
  exists node keyOffset valOffset, HMap.Buildable key val al node keyOffset valOffset

/-- What the caller has to see to. -/
def Allowed (s : HMapObjects K V) : Maker K V -> Prop
  | initCap _ key val _ _ al => Builds key val al ∧ val.isType = true
  | fromSpans keys vals _ _ al =>
      Builds keys.elem vals.elem al ∧ vals.elem.isType = true ∧ keys.len = vals.len
  | copy self => (s.objs self).al.isSome = true
  | copyWith self al => (s.objs self).al.isSome = true ∧ al.isSome = true
  | setInitCap _ key _ _ al => Builds key HSet.noVal al
  | setFromSpan span _ _ al => Builds span.elem HSet.noVal al
  | setCopy self => (s.objs self).al.isSome = true ∧ (s.objs self).val.size = 0
  | setCopyWith self al =>
      (s.objs self).al.isSome = true ∧ (s.objs self).val.size = 0 ∧ al.isSome = true

end Maker

/-- A call of a public operation of maps or sets, with its arguments. -/
inductive Call (K V C : Type) where
  | init (out : Nat) (key val : Layout) (hasher : K -> Hash) (eq : K -> K -> Bool) (al : Al)
  | setInit (out : Nat) (key : Layout) (hasher : K -> Hash) (eq : K -> K -> Bool) (al : Al)
  | make (out : Nat) (maker : Maker K V)
  | deinit (self : Nat)
  | copyAssign (self other : Nat)
  | moveAssign (self other : Nat)
  | swap (self other : Nat)
  | setCopyAssign (self other : Nat)
  | setMoveAssign (self other : Nat)
  | setSwap (self other : Nat)
  | map (self : Nat) (op : MapOp K V C)
  | set (self : Nat) (op : SetOp K C)
  | pair (op : PairOp) (self other : Nat)
  | query (self : Nat) (asked : MapQuery K)
  | compare (asked : PairQuery V) (self other : Nat)

namespace Call

open Objects HMapObjects

/-- Make the call; functions without a status succeed. -/
def run : Call K V C -> Run (HMapObjects K V) Status
  | init out key val hasher eq al => do
      store out (← within (HMap.init key val hasher eq al))
      return .ok
  | setInit out key hasher eq al => do
      store out (← within (HSet.init key hasher eq al))
      return .ok
  | make out maker => do fill out (← maker.make)
  | deinit self => do
      store self (← within (HMap.deinit (← load self)))
      return .ok
  | copyAssign self other => HMapObjects.copyAssign self other
  | moveAssign self other => do
      HMapObjects.moveAssign self other
      return .ok
  | swap self other => do
      HMapObjects.swap self other
      return .ok
  | setCopyAssign self other => HMapObjects.setCopyAssign self other
  | setMoveAssign self other => do
      HMapObjects.setMoveAssign self other
      return .ok
  | setSwap self other => do
      HMapObjects.setSwap self other
      return .ok
  | map self op => do
      let (_, after) ← within (op.run (← load self))
      store self after
      return .ok
  | set self op => do
      store self (← within (op.run (← load self)))
      return .ok
  | pair op self other => do
      HMapObjects.pair op self other
      return .ok
  | query self asked => do
      within (asked.run (← load self))
      return .ok
  | compare asked self other => do
      let _ ← asked.run self other
      return .ok

/-- The objects a call may change. -/
def touched : Call K V C -> List Nat
  | init out .. | setInit out .. | make out _ => [out]
  | deinit self | copyAssign self _ | setCopyAssign self _ | map self _ | set self _ => [self]
  | moveAssign self other | swap self other | setMoveAssign self other | setSwap self other =>
      [self, other]
  | pair _ self _ => [self]
  | query .. | compare .. => []

/-- Two maps whose entries can pass between them. -/
def Alike (a b : HMap K) : Prop := a.key = b.key ∧ a.val = b.val

/-- A set object. -/
def IsSet (a : HMap K) : Prop := a.al.isSome = true ∧ a.val.size = 0

/-- What the caller has to see to: `self` and `other` are initialised and of
the same layouts, and `out` is a variable that owns no bucket array, since it
is overwritten. -/
def Allowed (s : HMapObjects K V) : Call K V C -> Prop
  | init out key val _ _ al =>
      (s.objs out).buckets = none ∧ Maker.Builds key val al ∧ val.isType = true
  | setInit out key _ _ al => (s.objs out).buckets = none ∧ Maker.Builds key HSet.noVal al
  | make out maker => (s.objs out).buckets = none ∧ maker.Allowed s
  | deinit _ => True
  | copyAssign self other | swap self other =>
      (s.objs self).al.isSome = true ∧ (s.objs other).al.isSome = true ∧
        Alike (s.objs self) (s.objs other)
  | moveAssign self other =>
      (s.objs other).al.isSome = true ∧
        ((s.objs self).al.isSome = true -> Alike (s.objs self) (s.objs other))
  | setCopyAssign self other | setSwap self other =>
      IsSet (s.objs self) ∧ IsSet (s.objs other) ∧ Alike (s.objs self) (s.objs other)
  | setMoveAssign self other =>
      IsSet (s.objs other) ∧ ((s.objs self).al.isSome = true ->
        (s.objs self).val.size = 0 ∧ Alike (s.objs self) (s.objs other))
  | map self op => (s.objs self).al.isSome = true ∧ op.Allowed (s.objs self) s.mem
  | set self op => (s.objs self).al.isSome = true ∧ op.Allowed (s.objs self) s.mem
  | pair _ self other =>
      IsSet (s.objs self) ∧ IsSet (s.objs other) ∧ (s.objs self).key = (s.objs other).key
  | query self asked => (s.objs self).al.isSome = true ∧ asked.Allowed (s.objs self) s.mem
  | compare asked self other =>
      (s.objs self).al.isSome = true ∧ (s.objs other).al.isSome = true ∧
      match asked with
      | .eq _ => Alike (s.objs self) (s.objs other)
      | _ => (s.objs self).val.size = 0 ∧ (s.objs other).val.size = 0 ∧
          (s.objs self).key = (s.objs other).key

end Call

/-- The states a program can come to: it starts with inert objects and nothing
allocated, over an arbitrary script of the allocator, and makes allowed calls. -/
inductive Reachable (C : Type) : HMapObjects K V -> Prop where
  | start (answers : Nat -> Option Addr) :
      Reachable C ⟨fun _ => HMap.inert, ⟨fun _ => none, answers, 0⟩⟩
  | call {s later : HMapObjects K V} {st : Status} (before : Reachable C s) (call : Call K V C)
      (allowed : call.Allowed s) (ran : call.run s = some (st, later)) : Reachable C later

end TerseDsa
