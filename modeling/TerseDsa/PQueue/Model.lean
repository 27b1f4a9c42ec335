import TerseDsa.Algo.Heap
import TerseDsa.Vec.Objects

namespace TerseDsa

open Foundation

/-!
# `ds/pqueue`

A vec kept a max-heap under the comparator that is stored beside it.  What the
comparator sees of the program behind its `ctx` is a state that every call
takes and hands back.
-/

/-- `tda_PQueue`. -/
structure PQueue (α C : Type) where
  vec : Vec
  cmp : Option (Option Addr -> Cmp α C)
  ctx : Option Addr

namespace PQueue

variable {α C S : Type}

/-- `= {}`: the state after `deinit`. -/
def inert : PQueue α C := ⟨Vec.inert, none, none⟩

/-- `ASSERT_PQUEUE`. -/
def assertPQueue (self : PQueue α C) : Run S Unit := do
  Run.require (self.vec.al.isSome = true)
  Run.require (self.cmp.isSome = true)

/-- `EXPECT_SAME_PQUEUE`. -/
def expectSame (a b : PQueue α C) : Run S Unit := Run.require (a.vec.elem = b.vec.elem)

/-- `self->cmp_` and `self->ctx_`, as the algorithms take them. -/
def comparator (self : PQueue α C) : Run S (Cmp α C) := do
  let cmp ← Run.demand self.cmp
  return cmp self.ctx

/-! ## Lifetime -/

/-- `tda_pqueue_init`. -/
def init (elem : Layout) (cmp : Option Addr -> Cmp α C) (ctx : Option Addr) (al : Al) : Run S (PQueue α C) := do
  Run.require (elem.isType = true)
  Run.require (al.isSome = true)
  let vec ← Vec.init elem al
  return { vec, cmp := some cmp, ctx }

/-- `tda_pqueue_init_cap`. -/
def initCap (cap : Nat) (elem : Layout) (cmp : Option Addr -> Cmp α C) (ctx : Option Addr) (al : Al) :
    Run (VecMem α) (Status × Option (PQueue α C)) := do
  Run.require (elem.isType = true)
  Run.require (al.isSome = true)
  let (st, out) ← Vec.initCap α cap elem al
  if st ≠ .ok then
    return (st, none)
  let vec ← Run.demand out
  return (.ok, some { vec, cmp := some cmp, ctx })

/-- `tda_pqueue_from_data`, from outside. -/
def fromData (data : List α) (elem : Layout) (cmp : Option Addr -> Cmp α C) (ctx : Option Addr) (al : Al)
    (world : C) : Run (VecMem α) (Status × Option (PQueue α C) × C) := do
  Run.require (elem.isType = true)
  Run.require (al.isSome = true)
  let (st, out) ← Vec.fromData data elem al
  if st ≠ .ok then
    return (st, none, world)
  let vec ← Run.demand out
  let s ← Vec.toSpan vec
  let world ← Span.makeHeap s (cmp ctx) world
  return (.ok, some { vec, cmp := some cmp, ctx }, world)

/-- `tda_pqueue_from_span`, from outside. -/
def fromSpan (s : SpanView α) (cmp : Option Addr -> Cmp α C) (ctx : Option Addr) (al : Al) (world : C) :
    Run (VecMem α) (Status × Option (PQueue α C) × C) := do
  Run.require (al.isSome = true)
  fromData s.elems s.elem cmp ctx al world

/-- `tda_pqueue_deinit`. -/
def deinit (self : PQueue α C) : Run (VecMem α) (PQueue α C) := do
  let _ ← Vec.deinit α self.vec
  return inert

/-- `tda_pqueue_copy_with`. -/
def copyWith (self : PQueue α C) (al : Al) : Run (VecMem α) (Status × Option (PQueue α C)) := do
  assertPQueue self
  Run.require (al.isSome = true)
  let (st, out) ← Vec.copyWith α self.vec al
  if st ≠ .ok then
    return (st, none)
  let vec ← Run.demand out
  -- the copy is already a heap, so no rebuild
  return (.ok, some { vec, cmp := self.cmp, ctx := self.ctx })

/-- `tda_pqueue_copy`. -/
def copy (self : PQueue α C) : Run (VecMem α) (Status × Option (PQueue α C)) := do
  assertPQueue self
  copyWith self self.vec.al

/-! ## Access -/

/-- `*tda_pqueue_top(self)`. -/
def top (self : PQueue α C) : Run (VecMem α) α := do
  Run.require (self.vec.al.isSome = true)
  Run.require (self.vec.len > 0)
  Vec.readElem self.vec 0

/-! ## Mods -/

/-- `tda_pqueue_push`. -/
def push (self : PQueue α C) (val : Operand α) (world : C) : Run (VecMem α) (Status × PQueue α C × C) := do
  assertPQueue self
  let (st, vec) ← Vec.push self.vec val
  let self := { self with vec }
  if st ≠ .ok then
    return (st, self, world)
  let s ← Vec.toSpan self.vec
  let world ← Span.pushHeap s (← comparator self) world
  assertPQueue self
  return (.ok, self, world)

/-- The rest of `tda_pqueue_extend`, once the new elems are behind the old ones: one heapify where
they are as many or more, else each sifts up past the ones before it. -/
def restore (all : Span) (oldLen : Nat) (cmp : Cmp α C) (world : C) : Run (VecMem α) C := do
  if all.len - oldLen ≥ oldLen then
    Span.makeHeap all cmp world
  else
    Run.countUp (fun len world => do
      let front ← Span.sub all 0 len
      Span.pushHeap front cmp world) (all.len - oldLen) (oldLen + 1) world

/-- `tda_pqueue_extend`, by a span that does not overlap the block. -/
def extend (self : PQueue α C) (src : SpanView α) (world : C) : Run (VecMem α) (Status × PQueue α C × C) := do
  assertPQueue self
  Run.require (self.vec.elem = src.elem)
  let oldLen := self.vec.len
  let (st, vec) ← Vec.extend self.vec src
  let self := { self with vec }
  if st ≠ .ok then
    return (st, self, world)
  let all ← Vec.toSpan self.vec
  let world ← restore all oldLen (← comparator self) world
  assertPQueue self
  return (.ok, self, world)

/-- `tda_pqueue_pop`. -/
def pop (self : PQueue α C) (world : C) : Run (VecMem α) (PQueue α C × C) := do
  assertPQueue self
  Run.require (self.vec.len > 0)
  let s ← Vec.toSpan self.vec
  let world ← Span.popHeap s (← comparator self) world
  let vec ← Vec.pop self.vec
  let self := { self with vec }
  assertPQueue self
  return (self, world)

/-- `tda_pqueue_pop_to`, with what it writes to `out`. -/
def popTo (self : PQueue α C) (out : Target) (world : C) : Run (VecMem α) (α × PQueue α C × C) := do
  assertPQueue self
  Run.require (self.vec.len > 0)
  let s ← Vec.toSpan self.vec
  let world ← Span.popHeap s (← comparator self) world
  let (val, vec) ← Vec.popTo self.vec out
  let self := { self with vec }
  assertPQueue self
  return (val, self, world)

/-- `tda_pqueue_replace_top`. -/
def replaceTop (self : PQueue α C) (val : Operand α) (world : C) : Run (VecMem α) C := do
  assertPQueue self
  Run.require (self.vec.len > 0)
  -- `vec_set` handles a `val` that names the root
  Vec.set self.vec 0 val
  let s ← Vec.toSpan self.vec
  Span.siftDown s 0 s.len (← comparator self) world

/-- `tda_pqueue_clear`. -/
def clear (self : PQueue α C) : Run S (PQueue α C) := do
  assertPQueue self
  let vec ← Vec.clear self.vec
  let self := { self with vec }
  assertPQueue self
  return self

/-- `tda_pqueue_reserve`. -/
def reserve (self : PQueue α C) (newCap : Nat) : Run (VecMem α) (Status × PQueue α C) := do
  assertPQueue self
  let (st, vec) ← Vec.reserve α self.vec newCap
  let self := { self with vec }
  assertPQueue self
  return (st, self)

/-- `tda_pqueue_shrink_to_fit`. -/
def shrinkToFit (self : PQueue α C) : Run (VecMem α) (Status × PQueue α C) := do
  assertPQueue self
  let (st, vec) ← Vec.shrinkToFit α self.vec
  let self := { self with vec }
  assertPQueue self
  return (st, self)

/-- A program that serves so many elems, each by `tda_pqueue_pop_to`. -/
def drain : (todo : Nat) -> (self : PQueue α C) -> (world : C) -> Run (VecMem α) (List α × PQueue α C × C)
  | 0, self, world => return ([], self, world)
  | todo + 1, self, world => do
      let (val, self, world) ← popTo self .outside world
      let (rest, self, world) ← drain todo self world
      return (val :: rest, self, world)

end PQueue

/-! ## Two queues -/

/-- The queue variables of a program, and its memory. -/
abbrev PQueueObjects (α C : Type) := Objects (PQueue α C) AlTag (List (Option α))

namespace PQueueObjects

open Objects PQueue

variable {α C β : Type}

/-- The vecs of the queues. -/
def vecs (s : PQueueObjects α C) : VecObjects α := ⟨fun var => (s.objs var).vec, s.mem⟩

/-- The queues with other vecs in them. -/
def withVecs (later : VecObjects α) (s : PQueueObjects α C) : PQueueObjects α C :=
  ⟨fun var => { s.objs var with vec := later.objs var }, later.mem⟩

/-- Run on the vecs of the queues. -/
def onVecs (run : Run (VecObjects α) β) : Run (PQueueObjects α C) β := Run.zoom vecs withVecs run

/-- `tda_pqueue_copy_assign`. -/
def copyAssign (self other : Nat) : Run (PQueueObjects α C) Status := do
  let a ← load self
  let b ← load other
  assertPQueue a
  assertPQueue b
  expectSame a b
  if self = other then
    return .ok
  let st ← onVecs (VecObjects.copyAssign α self other)
  if st ≠ .ok then
    return st
  -- the elems are a heap under the comparator of `other`, so take it too
  let a ← load self
  let b ← load other
  let a := { a with cmp := b.cmp, ctx := b.ctx }
  store self a
  assertPQueue a
  return .ok

/-- `tda_pqueue_move_assign`. -/
def moveAssign (self other : Nat) : Run (PQueueObjects α C) Unit := do
  let a ← load self
  let b ← load other
  assertPQueue b
  if a.vec.al.isSome = true then
    assertPQueue a
    expectSame a b
  if self = other then
    return ()
  onVecs (VecObjects.moveAssign α self other)
  let a ← load self
  let b ← load other
  let a := { a with cmp := b.cmp, ctx := b.ctx }
  store self a
  assertPQueue a
  assertPQueue b

/-- `tda_pqueue_swap`. -/
def swap (self other : Nat) : Run (PQueueObjects α C) Unit := do
  let a ← load self
  let b ← load other
  assertPQueue a
  assertPQueue b
  expectSame a b
  if self = other then
    return ()
  store self b
  store other a
  assertPQueue b
  assertPQueue a

end PQueueObjects
end TerseDsa
