import TerseDsa.Arr.Objects
import TerseDsa.BitSet.Objects
import TerseDsa.Deque.Objects
import TerseDsa.Foundation.Families
import TerseDsa.Vec.Objects

namespace TerseDsa

open Foundation

/-!
# The containers that keep their elems in one block

Any number of vecs, deques, arrs and bitsets, on any allocators, over one
memory.  A block may leave a vec or an arr with `into_raw`; until it is taken
over again, or given back, it is a raw block that the caller keeps.
-/

/-- What a caller knows of a block that it keeps: the elems in front, and how many there is room for. -/
structure Raw where
  elems : RawElems
  cap : Nat
  al : Al

abbrev RawObjects (α : Type) := Objects Raw AlTag (List (Option α))

namespace Raw

/-- No block. -/
def nothing : Raw := ⟨⟨none, 0, ⟨0, 0⟩⟩, 0, none⟩

/-- The block as a vec would keep it. -/
def asVec (self : Raw) : Vec := ⟨self.elems.data, self.elems.len, self.cap, self.elems.elem, self.al⟩

end Raw

namespace RawObjects

open Objects

/-- The caller allocates a block, and fills the front of it. -/
def allocRaw {α : Type} (out : Nat) (vals : List α) (cap : Nat) (elem : Layout) (al : Al) :
    Run (RawObjects α) Status := do
  match ← within (alloc al (Span.elemsLayout elem cap) (vals.map some ++ List.replicate (cap - vals.length) none)) with
  | none => return .errNoMem
  | some ptr => do
      store out ⟨⟨some ptr, vals.length, elem⟩, cap, al⟩
      return .ok

/-- The caller gives a block back. -/
def freeRaw (α : Type) (self : Nat) : Run (RawObjects α) Unit := do
  let raw ← load self
  within (dealloc raw.al raw.elems.data (Span.elemsLayout raw.elems.elem raw.cap))
  store self Raw.nothing

end RawObjects

/-- The kinds of owners of blocks. -/
inductive Family where
  | vec
  | deque
  | arr
  | raw
  | bitset
  deriving DecidableEq

/-- Blocks of elems. -/
def elemCells {α : Type} : CellSort (List (Option α) ⊕ List Word) (List (Option α)) where
  pick := Sum.getLeft?
  put := Sum.inl
  idle := []
  pick_put _ := rfl
  put_pick picked := (Sum.getLeft?_eq_some_iff.mp picked).symm

/-- Blocks of words. -/
def wordCells {α : Type} : CellSort (List (Option α) ⊕ List Word) (List Word) where
  pick := Sum.getRight?
  put := Sum.inr
  idle := []
  pick_put _ := rfl
  put_pick picked := (Sum.getRight?_eq_some_iff.mp picked).symm

namespace Family

/-- What a variable is. -/
@[reducible] def Obj : Family -> Type
  | vec => Vec
  | deque => Deque
  | arr => Arr
  | raw => Raw
  | bitset => BitSet

/-- What the block of a variable holds. -/
@[reducible] def Cells (α : Type) : Family -> Type
  | vec | deque | arr | raw => List (Option α)
  | bitset => List Word

/-- The cells of a block as code for the family sees them. -/
@[reducible] def sort (α : Type) : (family : Family) -> CellSort (List (Option α) ⊕ List Word) (family.Cells α)
  | vec => elemCells
  | deque => elemCells
  | arr => elemCells
  | raw => elemCells
  | bitset => wordCells

end Family

/-- The variables of a program, of five kinds, and its memory; a block holds elems or words. -/
abbrev Containers (α : Type) := Mixed Family.Obj AlTag (List (Option α) ⊕ List Word)

namespace Containers

variable {α C : Type}

/-- What code for one kind sees of a state. -/
abbrev seen (s : Containers α) (family : Family) : Objects family.Obj AlTag (family.Cells α) :=
  ⟨s.objs family, (family.sort α).view s.mem⟩

/-! ## Calls -/

/-- A call of a public operation on any of the containers, or one that hands a block over.
The predicates and comparators of the operations keep a state `C`. -/
inductive Call (α C : Type) where
  | vec (call : Vec.Call α C)
  | deque (call : Deque.Call α C)
  | arr (call : Arr.Call α)
  | bitset (call : BitSet.Call)
  | vecIntoRaw (self out : Nat)
  | vecInitRaw (out raw : Nat)
  | arrIntoRaw (self out : Nat)
  | arrInitRaw (out raw : Nat)
  | rawAlloc (out : Nat) (vals : List α) (cap : Nat) (elem : Layout) (al : Al)
  | rawFree (raw : Nat)

namespace Call

/-- Make the call; functions without a status succeed. -/
def run (zero : α) : Call α C -> Run (Containers α) Status
  | vec call => do
      let (st, _) ← Mixed.on (Family.sort α) .vec (call.run zero)
      return st
  | deque call => do
      let (st, _) ← Mixed.on (Family.sort α) .deque (call.run zero)
      return st
  | arr call => Mixed.on (Family.sort α) .arr (call.run zero)
  | bitset call => Mixed.on (Family.sort α) .bitset call.run
  | vecIntoRaw self out => do
      let s ← get
      let given : Vec := s.objs .vec self
      let (elems, cap, after) ← Vec.intoRaw given
      -- the caller has noted the allocator
      set ((s.put .vec self after).put .raw out (⟨elems, cap, given.al⟩ : Raw))
      return .ok
  | vecInitRaw out raw => do
      let s ← get
      let given : Raw := s.objs .raw raw
      let taken ← Vec.initRaw given.elems given.cap given.al
      set ((s.put .raw raw Raw.nothing).put .vec out taken)
      return .ok
  | arrIntoRaw self out => do
      let s ← get
      let given : Arr := s.objs .arr self
      let (elems, after) ← Arr.intoRaw given
      set ((s.put .arr self after).put .raw out (⟨elems, elems.len, given.al⟩ : Raw))
      return .ok
  | arrInitRaw out raw => do
      let s ← get
      let given : Raw := s.objs .raw raw
      let taken ← Arr.initRaw given.elems given.al
      set ((s.put .raw raw Raw.nothing).put .arr out taken)
      return .ok
  | rawAlloc out vals cap elem al => Mixed.on (Family.sort α) .raw (RawObjects.allocRaw out vals cap elem al)
  | rawFree raw => do
      Mixed.on (Family.sort α) .raw (RawObjects.freeRaw α raw)
      return .ok

/-- What the caller has to see to: that a variable is initialised which is used, that one
which is overwritten owns no block, and that a block has just as many elems as an arr that
takes it over. -/
def Allowed (s : Containers α) : Call α C -> Prop
  | vec call => call.Allowed (s.seen .vec)
  | deque call => call.Allowed (s.seen .deque)
  | arr call => call.Allowed (s.seen .arr)
  | bitset call => call.Allowed (s.seen .bitset)
  | vecIntoRaw self out => (s.objs .vec self).al.isSome = true ∧ (s.objs .raw out).elems.data = none
  | vecInitRaw out raw => (s.objs .raw raw).al.isSome = true ∧ (s.objs .vec out).data = none
  | arrIntoRaw self out => (s.objs .arr self).al.isSome = true ∧ (s.objs .raw out).elems.data = none
  | arrInitRaw out raw => (s.objs .raw raw).al.isSome = true ∧
      (s.objs .raw raw).elems.len = (s.objs .raw raw).cap ∧ (s.objs .arr out).data = none
  | rawAlloc out vals cap elem al => (s.objs .raw out).elems.data = none ∧ elem.isType = true ∧ al.isSome = true ∧
      vals.length ≤ cap ∧ 0 < cap ∧ elem.size * cap < sizeRange
  | rawFree raw => (s.objs .raw raw).al.isSome = true

/-- The call that gives up a variable. -/
def giveBack : Family × Nat -> Call α C
  | (.vec, var) => vec (.deinit var)
  | (.deque, var) => deque (.deinit var)
  | (.arr, var) => arr (.deinit var)
  | (.raw, var) => rawFree var
  | (.bitset, var) => bitset (.deinit var)

end Call

/-- A variable that is not initialised. -/
def idle : (family : Family) -> family.Obj
  | .vec => Vec.inert
  | .deque => Deque.inert
  | .arr => Arr.inert
  | .raw => Raw.nothing
  | .bitset => BitSet.inert

/-- No variable is initialised, and nothing is live. -/
def initial (answers : Nat -> Option Addr) : Containers α :=
  ⟨fun family _ => idle family, ⟨fun _ => none, answers, 0⟩⟩

/-- The states of a program, over an arbitrary script of the allocators. -/
inductive Reaches (C : Type) (zero : α) : Containers α -> Prop where
  | start (answers : Nat -> Option Addr) : Reaches C zero (initial answers)
  | call {s later : Containers α} {st : Status} (before : Reaches C zero s) (call : Call α C)
      (allowed : call.Allowed s) (ran : call.run zero s = some (st, later)) : Reaches C zero later

/-! ## Blocks -/

/-- The block of a variable. -/
def block (s : Containers α) : Family × Nat -> Option Addr
  | (.vec, var) => (s.objs .vec var).data
  | (.deque, var) => (s.objs .deque var).data
  | (.arr, var) => (s.objs .arr var).data
  | (.raw, var) => (s.objs .raw var).elems.data
  | (.bitset, var) => (s.objs .bitset var).words

/-- The allocator a variable gives its block back to, and the size and the alignment that it
works out for it. -/
def tag (s : Containers α) : Family × Nat -> AlTag
  | (.vec, var) =>
      let vec : Vec := s.objs .vec var
      (vec.al, ⟨vec.elem.size * vec.cap, vec.elem.align⟩)
  | (.deque, var) =>
      let deque : Deque := s.objs .deque var
      (deque.al, ⟨deque.elem.size * deque.cap, deque.elem.align⟩)
  | (.arr, var) =>
      let arr : Arr := s.objs .arr var
      (arr.al, ⟨arr.elem.size * arr.len, arr.elem.align⟩)
  | (.raw, var) =>
      let raw : Raw := s.objs .raw var
      (raw.al, ⟨raw.elems.elem.size * raw.cap, raw.elems.elem.align⟩)
  | (.bitset, var) =>
      let set : BitSet := s.objs .bitset var
      (set.al, ⟨8 * set.nwords, 8⟩)

end Containers
end TerseDsa
