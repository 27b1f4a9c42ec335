import TerseDsa.Foundation.Wrapping
import TerseDsa.Vec.Objects

namespace TerseDsa

open Foundation

/-!
# `ds/stack`

A vec with fewer operations: the top is its last elem.  Growth, allocators and
copies are the vec's.
-/

/-- `tda_Stack`. -/
structure Stack where
  vec : Vec

namespace Stack

variable {α C S : Type}

/-- `= {}`: the state after `deinit`. -/
def inert : Stack := ⟨Vec.inert⟩

/-- `ASSERT_STACK`. -/
def assertStack (self : Stack) : Run S Unit := Run.require (self.vec.al.isSome = true)

/-! ## Lifetime -/

/-- `tda_stack_init`. -/
def init (elem : Layout) (al : Al) : Run S Stack := do
  Run.require (elem.isType = true)
  Run.require (al.isSome = true)
  return ⟨← Vec.init elem al⟩

/-- What was written to `&out->vec_`. -/
def wrap (result : Status × Option Vec) : Status × Option Stack := (result.1, result.2.map Stack.mk)

/-- `tda_stack_init_cap`. -/
def initCap (α : Type) (cap : Nat) (elem : Layout) (al : Al) : Run (VecMem α) (Status × Option Stack) := do
  Run.require (elem.isType = true)
  Run.require (al.isSome = true)
  return wrap (← Vec.initCap α cap elem al)

/-- `tda_stack_from_data`, from outside. -/
def fromData (data : List α) (elem : Layout) (al : Al) : Run (VecMem α) (Status × Option Stack) := do
  Run.require (elem.isType = true)
  Run.require (al.isSome = true)
  return wrap (← Vec.fromData data elem al)

/-- `tda_stack_from_span`, from outside. -/
def fromSpan (s : SpanView α) (al : Al) : Run (VecMem α) (Status × Option Stack) := do
  Run.require (al.isSome = true)
  fromData s.elems s.elem al

/-- `tda_stack_deinit`. -/
def deinit (α : Type) (self : Stack) : Run (VecMem α) Stack := do
  return ⟨← Vec.deinit α self.vec⟩

/-- `tda_stack_into_vec`. -/
def intoVec (self : Stack) : Run S (Vec × Stack) := do
  assertStack self
  let inner := self.vec
  return (inner, ⟨Vec.inert⟩)

/-- `tda_stack_copy_with`. -/
def copyWith (α : Type) (self : Stack) (al : Al) : Run (VecMem α) (Status × Option Stack) := do
  assertStack self
  Run.require (al.isSome = true)
  return wrap (← Vec.copyWith α self.vec al)

/-- `tda_stack_copy`. -/
def copy (α : Type) (self : Stack) : Run (VecMem α) (Status × Option Stack) := do
  assertStack self
  copyWith α self self.vec.al

/-! ## Info and access -/

/-- `tda_stack_len`. -/
def len (self : Stack) : Run S Nat := do
  assertStack self
  return self.vec.len

/-- `*tda_stack_top(self)`. -/
def top (self : Stack) : Run (VecMem α) α := do
  assertStack self
  Run.require (self.vec.len > 0)
  Vec.back self.vec

/-- `*tda_stack_top_mut(self) = val`. -/
def setTop (self : Stack) (val : α) : Run (VecMem α) Unit := do
  assertStack self
  Run.require (self.vec.len > 0)
  Vec.writeElem self.vec (self.vec.len - 1) val

/-- `tda_stack_to_span`. -/
def toSpan (self : Stack) : Run S Span := do
  assertStack self
  Vec.toSpan self.vec

/-! ## Mods -/

/-- `tda_stack_push`. -/
def push (self : Stack) (val : Operand α) : Run (VecMem α) (Status × Stack) := do
  assertStack self
  let (st, vec) ← Vec.push self.vec val
  let self : Stack := ⟨vec⟩
  assertStack self
  return (st, self)

/-- `tda_stack_extend`, by a span that does not overlap the block. -/
def extend (self : Stack) (src : SpanView α) : Run (VecMem α) (Status × Stack) := do
  assertStack self
  Run.require (self.vec.elem = src.elem)
  let (st, vec) ← Vec.extend self.vec src
  let self : Stack := ⟨vec⟩
  assertStack self
  return (st, self)

/-- `tda_stack_pop`. -/
def pop (self : Stack) : Run S Stack := do
  assertStack self
  Run.require (self.vec.len > 0)
  return ⟨← Vec.pop self.vec⟩

/-- `tda_stack_pop_to`, with what it writes to `out`. -/
def popTo (self : Stack) (out : Target) : Run (VecMem α) (α × Stack) := do
  assertStack self
  Run.require (self.vec.len > 0)
  let (val, vec) ← Vec.popTo self.vec out
  let self : Stack := ⟨vec⟩
  assertStack self
  return (val, self)

/-- `tda_stack_clear`. -/
def clear (self : Stack) : Run S Stack := do
  assertStack self
  return ⟨← Vec.clear self.vec⟩

/-- `tda_stack_reserve`. -/
def reserve (α : Type) (self : Stack) (newCap : Nat) : Run (VecMem α) (Status × Stack) := do
  assertStack self
  let (st, vec) ← Vec.reserve α self.vec newCap
  let self : Stack := ⟨vec⟩
  assertStack self
  return (st, self)

/-- `tda_stack_shrink_to_fit`. -/
def shrinkToFit (α : Type) (self : Stack) : Run (VecMem α) (Status × Stack) := do
  assertStack self
  let (st, vec) ← Vec.shrinkToFit α self.vec
  let self : Stack := ⟨vec⟩
  assertStack self
  return (st, self)

end Stack

/-! ## Two stacks -/

/-- The stack variables of a program, and its memory. -/
abbrev StackObjects (α : Type) := Objects Stack AlTag (List (Option α))

namespace StackObjects

open Objects Stack

/-- A stack is its vec. -/
def asVec : Stack ≃ Vec where
  toFun self := self.vec
  invFun vec := ⟨vec⟩
  left_inv _ := rfl
  right_inv _ := rfl

/-- `tda_stack_copy_assign`. -/
def copyAssign (α : Type) (self other : Nat) : Run (StackObjects α) Status :=
  (VecObjects.handling α).copyInside asVec (VecObjects.copyAssign α self other) self other

/-- `tda_stack_move_assign`. -/
def moveAssign (α : Type) (self other : Nat) : Run (StackObjects α) Unit :=
  (VecObjects.handling α).moveInside asVec (VecObjects.moveAssign α self other) self other

/-- `tda_stack_swap`. -/
def swap (α : Type) (self other : Nat) : Run (StackObjects α) Unit :=
  (VecObjects.handling α).swapInside asVec (VecObjects.swap α self other) self other

end StackObjects
end TerseDsa
