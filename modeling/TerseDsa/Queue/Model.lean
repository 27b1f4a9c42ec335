import TerseDsa.Foundation.Wrapping
import TerseDsa.Deque.Objects

namespace TerseDsa

open Foundation

/-!
# `ds/queue`

A deque with fewer operations: elems enter at the back and are served from the
front.  Growth, allocators and copies are the deque's.
-/

/-- `tda_Queue`. -/
structure Queue where
  deque : Deque

namespace Queue

variable {α C S : Type}

/-- `= {}`: the state after `deinit`. -/
def inert : Queue := ⟨Deque.inert⟩

/-- `ASSERT_QUEUE`. -/
def assertQueue (self : Queue) : Run S Unit := Run.require (self.deque.al.isSome = true)

/-! ## Lifetime -/

/-- `tda_queue_init`. -/
def init (elem : Layout) (al : Al) : Run S Queue := do
  Run.require (elem.isType = true)
  Run.require (al.isSome = true)
  return ⟨← Deque.init elem al⟩

/-- What was written to `&out->deque_`. -/
def wrap (result : Status × Option Deque) : Status × Option Queue := (result.1, result.2.map Queue.mk)

/-- `tda_queue_init_cap`. -/
def initCap (α : Type) (cap : Nat) (elem : Layout) (al : Al) : Run (DequeMem α) (Status × Option Queue) := do
  Run.require (elem.isType = true)
  Run.require (al.isSome = true)
  return wrap (← Deque.initCap α cap elem al)

/-- `tda_queue_from_data`, from outside. -/
def fromData (data : List α) (elem : Layout) (al : Al) : Run (DequeMem α) (Status × Option Queue) := do
  Run.require (elem.isType = true)
  Run.require (al.isSome = true)
  return wrap (← Deque.fromData data elem al)

/-- `tda_queue_from_span`, from outside. -/
def fromSpan (s : SpanView α) (al : Al) : Run (DequeMem α) (Status × Option Queue) := do
  Run.require (al.isSome = true)
  fromData s.elems s.elem al

/-- `tda_queue_deinit`. -/
def deinit (α : Type) (self : Queue) : Run (DequeMem α) Queue := do
  return ⟨← Deque.deinit α self.deque⟩

/-- `tda_queue_into_deque`. -/
def intoDeque (self : Queue) : Run S (Deque × Queue) := do
  assertQueue self
  let inner := self.deque
  return (inner, ⟨Deque.inert⟩)

/-- `tda_queue_copy_with`. -/
def copyWith (α : Type) (self : Queue) (al : Al) : Run (DequeMem α) (Status × Option Queue) := do
  assertQueue self
  Run.require (al.isSome = true)
  return wrap (← Deque.copyWith α self.deque al)

/-- `tda_queue_copy`. -/
def copy (α : Type) (self : Queue) : Run (DequeMem α) (Status × Option Queue) := do
  assertQueue self
  copyWith α self self.deque.al

/-! ## Info and access -/

/-- `tda_queue_len`. -/
def len (self : Queue) : Run S Nat := do
  assertQueue self
  return self.deque.len

/-- `*tda_queue_front(self)`. -/
def front (self : Queue) : Run (DequeMem α) α := do
  assertQueue self
  Run.require (self.deque.len > 0)
  Deque.front self.deque

/-- `*tda_queue_front_mut(self) = val`. -/
def setFront (self : Queue) (val : α) : Run (DequeMem α) Unit := do
  assertQueue self
  Run.require (self.deque.len > 0)
  Deque.setElemAt self.deque 0 (some val)

/-- `*tda_queue_back(self)`. -/
def back (self : Queue) : Run (DequeMem α) α := do
  assertQueue self
  Run.require (self.deque.len > 0)
  Deque.back self.deque

/-- `*tda_queue_back_mut(self) = val`. -/
def setBack (self : Queue) (val : α) : Run (DequeMem α) Unit := do
  assertQueue self
  Run.require (self.deque.len > 0)
  Deque.setElemAt self.deque (self.deque.len - 1) (some val)

/-- `tda_queue_copy_to_span`: what it writes to `dst`. -/
def copyToSpan (self : Queue) (dstLen : Nat) (dstElem : Layout) : Run (DequeMem α) (List (Option α)) := do
  assertQueue self
  Run.require (self.deque.elem = dstElem)
  Run.require (dstLen = self.deque.len)
  Deque.copyToSpan self.deque dstLen dstElem

/-! ## Mods -/

/-- `tda_queue_push`. -/
def push (self : Queue) (val : Operand α) : Run (DequeMem α) (Status × Queue) := do
  assertQueue self
  let (st, deque) ← Deque.pushBack self.deque val
  let self : Queue := ⟨deque⟩
  assertQueue self
  return (st, self)

/-- `tda_queue_extend`, by a span that does not overlap the block. -/
def extend (self : Queue) (src : SpanView α) : Run (DequeMem α) (Status × Queue) := do
  assertQueue self
  Run.require (self.deque.elem = src.elem)
  let (st, deque) ← Deque.extend self.deque src
  let self : Queue := ⟨deque⟩
  assertQueue self
  return (st, self)

/-- `tda_queue_pop`. -/
def pop (self : Queue) : Run S Queue := do
  assertQueue self
  Run.require (self.deque.len > 0)
  let self : Queue := ⟨← Deque.popFront self.deque⟩
  assertQueue self
  return self

/-- `tda_queue_pop_to`, with what it writes to `out`. -/
def popTo (self : Queue) (out : Target) : Run (DequeMem α) (α × Queue) := do
  assertQueue self
  Run.require (self.deque.len > 0)
  let (val, deque) ← Deque.popFrontTo self.deque out
  let self : Queue := ⟨deque⟩
  assertQueue self
  return (val, self)

/-- `tda_queue_clear`. -/
def clear (self : Queue) : Run S Queue := do
  assertQueue self
  let self : Queue := ⟨← Deque.clear self.deque⟩
  assertQueue self
  return self

/-- `tda_queue_reserve`. -/
def reserve (α : Type) (self : Queue) (newCap : Nat) : Run (DequeMem α) (Status × Queue) := do
  assertQueue self
  let (st, deque) ← Deque.reserve α self.deque newCap
  let self : Queue := ⟨deque⟩
  assertQueue self
  return (st, self)

/-- `tda_queue_shrink_to_fit`. -/
def shrinkToFit (α : Type) (self : Queue) : Run (DequeMem α) (Status × Queue) := do
  assertQueue self
  let (st, deque) ← Deque.shrinkToFit α self.deque
  let self : Queue := ⟨deque⟩
  assertQueue self
  return (st, self)

end Queue

/-! ## Two queues -/

/-- The queue variables of a program, and its memory. -/
abbrev QueueObjects (α : Type) := Objects Queue AlTag (List (Option α))

namespace QueueObjects

open Objects Queue

/-- A queue is its deque. -/
def asDeque : Queue ≃ Deque where
  toFun self := self.deque
  invFun deque := ⟨deque⟩
  left_inv _ := rfl
  right_inv _ := rfl

/-- `tda_queue_copy_assign`. -/
def copyAssign (α : Type) (self other : Nat) : Run (QueueObjects α) Status :=
  (DequeObjects.handling α).copyInside asDeque (DequeObjects.copyAssign α self other) self other

/-- `tda_queue_move_assign`. -/
def moveAssign (α : Type) (self other : Nat) : Run (QueueObjects α) Unit :=
  (DequeObjects.handling α).moveInside asDeque (DequeObjects.moveAssign α self other) self other

/-- `tda_queue_swap`. -/
def swap (α : Type) (self other : Nat) : Run (QueueObjects α) Unit :=
  (DequeObjects.handling α).swapInside asDeque (DequeObjects.swap α self other) self other

end QueueObjects
end TerseDsa
