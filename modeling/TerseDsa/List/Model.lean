import TerseDsa.Alloc.Wrappers
import TerseDsa.Core.Cmp
import TerseDsa.Core.Layout

namespace TerseDsa

open Foundation

/-!
# `ds/list`

A doubly linked list.  Every node is a block of its own, with the two links
and the elem.  Operations take the struct and hand it back, as the C functions
update `self` in place; a loop over a chain may take as many rounds as the
list says it has nodes, and one more to find the end.

`len_` counts nodes that are in memory at once, so that it does not wrap.
-/

/-- `tda_ListNode`, with the elem behind the links. -/
structure ListNode (α : Type) where
  next : Option Addr
  prev : Option Addr
  elem : α

/-- `tda_List`. -/
structure TdaList where
  head : Option Addr
  tail : Option Addr
  len : Nat
  elem : Layout
  al : Al

abbrev ListMem (α : Type) := AlHeap (ListNode α)

namespace TdaList

variable {α C S : Type}

/-- `= {}`: the state after `deinit`. -/
def inert : TdaList := ⟨none, none, 0, ⟨0, 0⟩, none⟩

/-- `ASSERT_LIST`. -/
def Asserts (self : TdaList) : Prop :=
  self.elem.isType = true ∧ self.al.isSome = true ∧
    (0 < self.len <-> self.head.isSome = true) ∧
    (self.head.isSome = true <-> self.tail.isSome = true)

instance (self : TdaList) : Decidable self.Asserts := by
  unfold Asserts
  infer_instance

def assertList (self : TdaList) : Run S Unit := Run.require self.Asserts

/-- `EXPECT_SAME_LIST`. -/
def expectSame (a b : TdaList) : Run S Unit := Run.require (a.elem = b.elem)

/-! ## Nodes -/

def readNode (node : Addr) : Run (ListMem α) (ListNode α) := Heap.read node

/-- `node->next = target`. -/
def setNext (α : Type) (node : Addr) (target : Option Addr) : Run (ListMem α) Unit := do
  let cell ← readNode (α := α) node
  Heap.write node { cell with next := target }

/-- `node->prev = target`. -/
def setPrev (α : Type) (node : Addr) (target : Option Addr) : Run (ListMem α) Unit := do
  let cell ← readNode (α := α) node
  Heap.write node { cell with prev := target }

/-- `*elem_of_mut(self, node) = val`. -/
def setElem (node : Addr) (val : α) : Run (ListMem α) Unit := do
  let cell ← readNode node
  Heap.write node { cell with elem := val }

/-- `!node->prev || node->prev->next == node`. -/
def checkPrev (α : Type) (node : Addr) : Option Addr -> Run (ListMem α) Unit
  | none => return ()
  | some prev => do Run.require ((← readNode (α := α) prev).next = some node)

/-- `!node->next || node->next->prev == node`. -/
def checkNext (α : Type) (node : Addr) : Option Addr -> Run (ListMem α) Unit
  | none => return ()
  | some next => do Run.require ((← readNode (α := α) next).prev = some node)

/-- `ASSERT_NODE`. -/
def assertNode (α : Type) (node : Addr) : Run (ListMem α) Unit := do
  let cell ← readNode (α := α) node
  checkPrev α node cell.prev
  checkNext α node cell.next

/-- `ASSERT_POS`. -/
def assertPos (α : Type) : Option Addr -> Run (ListMem α) Unit
  | none => return ()
  | some node => assertNode α node

/-- `ckd_node_layout`: the two links, the elem, and the padding. -/
def ckdNodeLayout (elem : Layout) : Option Layout := do
  let (links, _) ← (⟨2 * Layout.ofPointer.size, Layout.ofPointer.align⟩ : Layout).ckdExtend elem
  links.ckdPad

/-- `node_layout`. -/
def nodeLayout (self : TdaList) : Run S Layout := Run.demand (ckdNodeLayout self.elem)

/-- `alloc_node`. -/
def allocNode (self : TdaList) (val : α) : Run (ListMem α) (Option Addr) := do
  alloc self.al (← nodeLayout self) ⟨none, none, val⟩

/-- `dealloc_node`. -/
def deallocNode (α : Type) (self : TdaList) (node : Addr) : Run (ListMem α) Unit := do
  dealloc self.al (some node) (← nodeLayout self)

/-- `owns_node`. -/
def ownsNode (α : Type) (self : TdaList) (node : Addr) : Run (ListMem α) Bool :=
  Run.loop (fun cur =>
    match cur with
    | none => return .leave false
    | some addr => do
        if addr = node then
          return .leave true
        return .again (← readNode (α := α) addr).next)
    (self.len + 1) self.head

/-! ## Links -/

/-- `prev->next = target`, or the head if there is no `prev`. -/
def followWith (α : Type) (self : TdaList) (prev target : Option Addr) :
    Run (ListMem α) TdaList :=
  match prev with
  | some prev => do
      setNext α prev target
      return self
  | none => return { self with head := target }

/-- `next->prev = target`, or the tail if there is no `next`. -/
def precedeWith (α : Type) (self : TdaList) (next target : Option Addr) :
    Run (ListMem α) TdaList :=
  match next with
  | some next => do
      setPrev α next target
      return self
  | none => return { self with tail := target }

/-- `link_chain`. -/
def linkChain (α : Type) (self : TdaList) (first last : Addr) (count : Nat)
    (prev next : Option Addr) : Run (ListMem α) TdaList := do
  setPrev α first prev
  setNext α last next
  let self ← followWith α self prev (some first)
  let self ← precedeWith α self next (some last)
  return { self with len := self.len + count }

/-- `link_node`. -/
def linkNode (α : Type) (self : TdaList) (node : Addr) (prev next : Option Addr) :
    Run (ListMem α) TdaList :=
  linkChain α self node node 1 prev next

/-- `insert_between`. -/
def insertBetween (self : TdaList) (prev next : Option Addr) (val : α) :
    Run (ListMem α) (Status × TdaList) := do
  match ← allocNode self val with
  | none => return (.errNoMem, self)
  | some node =>
      let self ← linkNode α self node prev next
      assertList self
      assertNode α node
      return (.ok, self)

/-- `unlink_node`. -/
def unlinkNode (α : Type) (self : TdaList) (node : Addr) : Run (ListMem α) TdaList := do
  assertNode α node
  Run.require (self.len > 0)
  let cell ← readNode (α := α) node
  let self ← followWith α self cell.prev cell.next
  let self ← precedeWith α self cell.next cell.prev
  return { self with len := self.len - 1 }

/-- `remove_node`. -/
def removeNodeImpl (α : Type) (self : TdaList) (node : Addr) : Run (ListMem α) TdaList := do
  let self ← unlinkNode α self node
  deallocNode α self node
  assertList self
  return self

/-- `set_empty`. -/
def setEmpty (self : TdaList) : TdaList := { self with head := none, tail := none, len := 0 }

/-- `splice_nodes`. -/
def spliceNodes (α : Type) (self src : TdaList) (front : Bool) :
    Run (ListMem α) (TdaList × TdaList) := do
  Run.require (self.al = src.al)
  Run.require (self.elem = src.elem)
  Run.require (src.len > 0)
  let prev := if front then none else self.tail
  let next := if front then self.head else none
  let first ← Run.demand src.head
  let last ← Run.demand src.tail
  let self ← linkChain α self first last src.len prev next
  let src := setEmpty src
  assertList self
  assertList src
  return (self, src)

/-- `clear_nodes`. -/
def clearNodes (α : Type) (self : TdaList) : Run (ListMem α) TdaList := do
  Run.loop (fun node =>
    match node with
    | none => return .leave ()
    | some addr => do
        let next := (← readNode (α := α) addr).next
        deallocNode α self addr
        return .again next)
    (self.len + 1) self.head
  return setEmpty self

/-- `prev_of`. -/
def prevOf (α : Type) (self : TdaList) : Option Addr -> Run (ListMem α) (Option Addr)
  | some at_ => return (← readNode (α := α) at_).prev
  | none => return self.tail

/-- `skip`. -/
def skip (α : Type) : (node : Option Addr) -> (n : Nat) -> Run (ListMem α) (Option Addr)
  | some node, n + 1 => do skip α (← readNode (α := α) node).next n
  | node, _ => return node

/-! ## Lifetime -/

/-- `tda_list_init`. -/
def init (elem : Layout) (al : Al) : Run S TdaList := do
  Run.require (elem.isType = true)
  Run.require (al.isSome = true)
  Run.require ((ckdNodeLayout elem).isSome = true)
  return ⟨none, none, 0, elem, al⟩

/-- `tda_list_push_front`. -/
def pushFront (self : TdaList) (val : α) : Run (ListMem α) (Status × TdaList) := do
  assertList self
  insertBetween self none self.head val

/-- `tda_list_push_back`. -/
def pushBack (self : TdaList) (val : α) : Run (ListMem α) (Status × TdaList) := do
  assertList self
  insertBetween self self.tail none val

/-- `tda_list_deinit`. -/
def deinit (α : Type) (self : TdaList) : Run (ListMem α) TdaList := do
  if self.al = none then
    Run.require (self.head = none)
    return self
  assertList self
  let _ ← clearNodes α self
  return inert

/-- `tda_list_from_data`. -/
def fromData (data : List α) (elem : Layout) (al : Al) :
    Run (ListMem α) (Status × Option TdaList) := do
  let obj ← init elem al
  Run.loop (fun (vars : Nat × TdaList) => do
    if vars.1 < data.length then
      let val ← Run.demand data[vars.1]?
      let (st, obj) ← pushBack vars.2 val
      if st ≠ .ok then
        let _ ← deinit α obj
        return .leave (st, none)
      return .again (vars.1 + 1, obj)
    else
      return .leave (.ok, some vars.2))
    (data.length + 1) (0, obj)

/-- `tda_list_from_span`. -/
def fromSpan (s : SpanView α) (al : Al) : Run (ListMem α) (Status × Option TdaList) :=
  fromData s.elems s.elem al

/-- `push_copies`; `bound` is the length of the list that `from` is in. -/
def pushCopies (dst : TdaList) (bound : Nat) (src : Option Addr) :
    Run (ListMem α) (Status × TdaList) :=
  Run.loop (fun (vars : Option Addr × TdaList) =>
    match vars.1 with
    | none => return .leave (.ok, vars.2)
    | some node => do
        let cell ← readNode node
        let (st, dst) ← pushBack vars.2 cell.elem
        if st ≠ .ok then
          let dst ← clearNodes α dst
          return .leave (st, dst)
        return .again ((← readNode (α := α) node).next, dst))
    (bound + 1) (src, dst)

/-- `tda_list_copy_with`. -/
def copyWith (α : Type) (self : TdaList) (al : Al) : Run (ListMem α) (Status × Option TdaList) := do
  assertList self
  let obj ← init self.elem al
  let (st, obj) ← pushCopies (α := α) obj self.len self.head
  if st ≠ .ok then
    return (st, none)
  return (.ok, some obj)

/-- The body of `tda_list_copy_assign` for two different lists. -/
def copyOver (α : Type) (self other : TdaList) : Run (ListMem α) (Status × TdaList) := do
  let spare ← init self.elem self.al
  let (st, spare) ← pushCopies (α := α) spare other.len (← skip α other.head self.len)
  if st ≠ .ok then
    return (st, self)
  -- from here on nothing can fail
  Run.loop (fun (vars : Option Addr × Option Addr) =>
    match vars with
    | (some dst, some src) => do
        setElem (α := α) dst (← readNode src).elem
        return .again ((← readNode (α := α) dst).next, (← readNode (α := α) src).next)
    | _ => return .leave ())
    (self.len + 1) (self.head, other.head)
  let self ← Run.loop (fun (list : TdaList) => do
    if list.len > other.len then
      return .again (← removeNodeImpl α list (← Run.demand list.tail))
    else
      return .leave list)
    (self.len + 1) self
  let self ← if spare.len > 0 then do
      let (self, _) ← spliceNodes α self spare false
      pure self
    else pure self
  assertList self
  return (.ok, self)

/-! ## Mods -/

/-- `tda_list_extend`. -/
def extend (self : TdaList) (src : SpanView α) : Run (ListMem α) (Status × TdaList) := do
  assertList self
  Run.require (self.elem = src.elem)
  if src.len = 0 then
    return (.ok, self)
  -- the nodes are made apart and linked in one go
  let (st, chain) ← fromSpan src self.al
  if st ≠ .ok then
    return (st, self)
  let (self, _) ← spliceNodes α self (← Run.demand chain) false
  assertList self
  return (.ok, self)

/-- `tda_list_pop_front_to`, with the elem it writes to `out`. -/
def popFrontTo (self : TdaList) : Run (ListMem α) (α × TdaList) := do
  assertList self
  Run.require (self.len > 0)
  let node ← Run.demand self.head
  let val := (← readNode node).elem
  let self ← removeNodeImpl α self node
  return (val, self)

/-- `tda_list_pop_back_to`, with the elem it writes to `out`. -/
def popBackTo (self : TdaList) : Run (ListMem α) (α × TdaList) := do
  assertList self
  Run.require (self.len > 0)
  let node ← Run.demand self.tail
  let val := (← readNode node).elem
  let self ← removeNodeImpl α self node
  return (val, self)

/-- `tda_list_pop_front`. -/
def popFront (α : Type) (self : TdaList) : Run (ListMem α) TdaList := do
  assertList self
  Run.require (self.len > 0)
  removeNodeImpl α self (← Run.demand self.head)

/-- `tda_list_pop_back`. -/
def popBack (α : Type) (self : TdaList) : Run (ListMem α) TdaList := do
  assertList self
  Run.require (self.len > 0)
  removeNodeImpl α self (← Run.demand self.tail)

/-- The checks on a node that is to be in the list. -/
def expectOwned (α : Type) (self : TdaList) (node : Addr) : Run (ListMem α) Unit := do
  assertNode α node
  Run.require ((← ownsNode α self node) = true)

/-- `tda_list_insert_before`. -/
def insertBefore (self : TdaList) (at_ : Addr) (val : α) : Run (ListMem α) (Status × TdaList) := do
  assertList self
  expectOwned α self at_
  insertBetween self (← readNode (α := α) at_).prev (some at_) val

/-- `tda_list_insert_after`. -/
def insertAfter (self : TdaList) (at_ : Addr) (val : α) : Run (ListMem α) (Status × TdaList) := do
  assertList self
  expectOwned α self at_
  insertBetween self (some at_) (← readNode (α := α) at_).next val

/-- `tda_list_remove_node`. -/
def removeNode (α : Type) (self : TdaList) (node : Addr) : Run (ListMem α) TdaList := do
  assertList self
  expectOwned α self node
  removeNodeImpl α self node

/-- `tda_list_retain`, with the state the predicate leaves behind its `ctx`. -/
def retain (self : TdaList) (pred : α -> C -> Bool × C) (ctx : C) :
    Run (ListMem α) (TdaList × C) := do
  assertList self
  let (self, ctx) ← Run.loop (fun (vars : Option Addr × TdaList × C) =>
    match vars.1 with
    | none => return .leave vars.2
    | some node => do
        let cell ← readNode node
        let (keep, ctx) := pred cell.elem vars.2.2
        if keep then
          return .again (cell.next, vars.2.1, ctx)
        let list ← removeNodeImpl α vars.2.1 node
        return .again (cell.next, list, ctx))
    (self.len + 1) (self.head, self, ctx)
  assertList self
  return (self, ctx)

/-- `tda_list_clear`. -/
def clear (α : Type) (self : TdaList) : Run (ListMem α) TdaList := do
  assertList self
  let self ← clearNodes α self
  assertList self
  return self

/-- `nodes_for`: nothing stands for `src` itself, on one allocator. -/
def nodesFor (α : Type) (self src : TdaList) : Run (ListMem α) (Status × Option TdaList) := do
  if self.al = src.al then
    return (.ok, none)
  copyWith α src self.al

/-- `release_source`, when the nodes were those of a copy. -/
def releaseSource (α : Type) (src spare : TdaList) : Run (ListMem α) TdaList := do
  let _ ← deinit α spare
  clearNodes α src

/-- `splice_impl`. -/
def spliceImpl (α : Type) (self src : TdaList) (front : Bool) :
    Run (ListMem α) (Status × TdaList × TdaList) := do
  if src.len = 0 then
    return (.ok, self, src)
  let (st, spare) ← nodesFor α self src
  if st ≠ .ok then
    return (st, self, src)
  let (self, src) ← match spare with
    | none => spliceNodes α self src front
    | some spare => do
        let (self, spare) ← spliceNodes α self spare front
        let src ← releaseSource α src spare
        pure (self, src)
  assertList self
  assertList src
  return (.ok, self, src)

/-! ## Relinking -/

/-- `tda_list_reverse`. -/
def reverse (α : Type) (self : TdaList) : Run (ListMem α) TdaList := do
  assertList self
  Run.loop (fun cur =>
    match cur with
    | none => return .leave ()
    | some addr => do
        let cell ← readNode (α := α) addr
        Heap.write addr { cell with next := cell.prev, prev := cell.next }
        return .again cell.next)
    (self.len + 1) self.head
  let self := { self with head := self.tail, tail := self.head }
  assertList self
  return self

/-- `*tail = node`: the link behind `last`, or the head itself. -/
def linkAfter (α : Type) (head last node : Option Addr) : Run (ListMem α) (Option Addr) :=
  match last with
  | none => return node
  | some last => do
      setNext α last node
      return head

/-- The variables of `merge_chains`; `last` is the node that `tail` points into. -/
structure Merging (C : Type) where
  head : Option Addr
  last : Option Addr
  a : Option Addr
  b : Option Addr
  ctx : C

/-- `merge_chains`; `bound` is how many nodes there are in both chains. -/
def mergeChains (bound : Nat) (a b : Option Addr) (cmp : Cmp α C) (ctx : C) :
    Run (ListMem α) (Option Addr × C) :=
  Run.loop (fun (vars : Merging C) =>
    match vars.a, vars.b with
    | some left, some right => do
        let lhs ← readNode left
        let rhs ← readNode right
        let (rightFirst, ctx) := rightGoesFirst cmp lhs.elem rhs.elem vars.ctx
        if rightFirst then
          let head ← linkAfter α vars.head vars.last (some right)
          return .again ⟨head, some right, vars.a, rhs.next, ctx⟩
        else
          let head ← linkAfter α vars.head vars.last (some left)
          return .again ⟨head, some left, lhs.next, vars.b, ctx⟩
    | a, b => do
        let head ← linkAfter α vars.head vars.last (if a.isSome then a else b)
        return .leave (head, vars.ctx))
    (bound + 1) ⟨none, none, a, b, ctx⟩

/-- `sort_chain`. -/
def sortChain (head : Option Addr) (len : Nat) (cmp : Cmp α C) (ctx : C) :
    Run (ListMem α) (Option Addr × C) := do
  Run.require (head.isSome = true)
  if _ : len < 2 then
    return (head, ctx)
  else
    let half := len / 2
    let leftTail ← Run.demand (← skip α head (half - 1))
    let right := (← readNode (α := α) leftTail).next
    setNext α leftTail none
    let (leftSorted, ctx) ← sortChain head half cmp ctx
    let (rightSorted, ctx) ← sortChain right (len - half) cmp ctx
    mergeChains len leftSorted rightSorted cmp ctx
termination_by len
decreasing_by
  all_goals omega

/-- `relink_prev`. -/
def relinkPrev (α : Type) (self : TdaList) : Run (ListMem α) TdaList := do
  let tail ← Run.loop (fun (vars : Option Addr × Option Addr) =>
    match vars.1 with
    | none => return .leave vars.2
    | some node => do
        setPrev α node vars.2
        return .again ((← readNode (α := α) node).next, some node))
    (self.len + 1) (self.head, none)
  return { self with tail }

/-- `tda_list_sort`. -/
def sort (self : TdaList) (cmp : Cmp α C) (ctx : C) : Run (ListMem α) (TdaList × C) := do
  assertList self
  if self.len < 2 then
    return (self, ctx)
  let (head, ctx) ← sortChain self.head self.len cmp ctx
  let self ← relinkPrev α { self with head }
  assertList self
  return (self, ctx)

/-- `merge_into`. -/
def mergeInto (self src : TdaList) (cmp : Cmp α C) (ctx : C) :
    Run (ListMem α) (TdaList × TdaList × C) := do
  Run.require (self.al = src.al)
  Run.require (self.elem = src.elem)
  Run.require (src.len > 0)
  let (head, ctx) ← mergeChains (self.len + src.len) self.head src.head cmp ctx
  let self ← relinkPrev α { self with head, len := self.len + src.len }
  let src := setEmpty src
  assertList self
  assertList src
  return (self, src, ctx)

/-- The body of `tda_list_merge` for two different lists. -/
def mergeImpl (self src : TdaList) (cmp : Cmp α C) (ctx : C) :
    Run (ListMem α) (Status × TdaList × TdaList × C) := do
  if src.len = 0 then
    return (.ok, self, src, ctx)
  let (st, spare) ← nodesFor α self src
  if st ≠ .ok then
    return (st, self, src, ctx)
  let (self, src, ctx) ← match spare with
    | none => mergeInto self src cmp ctx
    | some spare => do
        let (self, spare, ctx) ← mergeInto self spare cmp ctx
        let src ← releaseSource α src spare
        pure (self, src, ctx)
  assertList self
  assertList src
  return (.ok, self, src, ctx)

/-- `tda_list_copy_to_span`: what it writes to `dst`. -/
def copyToSpan (self : TdaList) (dstLen : Nat) (dstElem : Layout) : Run (ListMem α) (List α) := do
  assertList self
  Run.require (dstElem = self.elem)
  Run.require (dstLen = self.len)
  Run.loop (fun (vars : Option Addr × List α) =>
    match vars.1 with
    | none => return .leave vars.2
    | some node => do
        let cell ← readNode node
        return .again (cell.next, vars.2 ++ [cell.elem]))
    (self.len + 1) (self.head, [])

end TdaList
end TerseDsa
