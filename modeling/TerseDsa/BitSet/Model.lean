import TerseDsa.Alloc.Wrappers
import TerseDsa.Core.Layout

namespace TerseDsa

open Foundation

/-!
# `ds/bitset`

A fixed set of indices, one bit each, in a block of 64-bit words.  The block
holds the words; the struct, which the operations take and hand back, says how
many there are and how many of their bits are in the universe.
-/

/-- `uint64_t`. -/
abbrev Word := BitVec 64

abbrev BitSetMem := AlHeap (List Word)

/-- `tda_BitSet`. -/
structure BitSet where
  words : Option Addr
  nbits : Nat
  nwords : Nat
  al : Al

namespace BitSet

def wordBits : Nat := 64
def wordOnes : Word := BitVec.allOnes 64

/-- `TDA_LAYOUT_OF(uint64_t)`. -/
def wordLayout : Layout := ⟨8, 8⟩

/-- `= {}`: the state after `deinit`. -/
def inert : BitSet := ⟨none, 0, 0, none⟩

/-- `words_for`. -/
def wordsFor (nbits : Nat) : Nat := nbits / wordBits + if nbits % wordBits ≠ 0 then 1 else 0

/-- `tail_mask`: the live bits of the last word. -/
def tailMask (nbits : Nat) : Word :=
  let rem := nbits % wordBits
  if rem = 0 then wordOnes else (1#64 <<< rem) - 1#64

/-! ## Access to the words -/

/-- The words of the block. -/
def readWords (self : BitSet) : Run BitSetMem (List Word) := do
  let addr ← Run.demand self.words
  Heap.read addr

/-- `words[w]`. -/
def readWord (self : BitSet) (w : Nat) : Run BitSetMem Word := do
  let words ← readWords self
  Run.demand words[w]?

/-- `words[w] = word`. -/
def writeWord (self : BitSet) (w : Nat) (word : Word) : Run BitSetMem Unit := do
  let addr ← Run.demand self.words
  let words ← Heap.read addr
  Run.require (w < words.length)
  Heap.write addr (words.set w word)

/-- `ASSERT_BITSET`. -/
def assertBitSet (self : BitSet) : Run BitSetMem Unit := do
  Run.require (self.nwords = wordsFor self.nbits)
  Run.require (self.nwords > 0 ∨ self.words = none)
  Run.require (self.nwords = 0 ∨ self.words.isSome)
  if self.nwords ≠ 0 then do
    let last ← readWord self (self.nwords - 1)
    Run.require (last &&& ~~~ tailMask self.nbits = 0#64)
  Run.require (self.al.isSome)

/-- `EXPECT_SAME_BITSET`. -/
def expectSame (a b : BitSet) : Run BitSetMem Unit := Run.require (a.nbits = b.nbits)

/-- `copy_words`; the blocks are different ones. -/
def copyWords (dst src : BitSet) : Run BitSetMem Unit := do
  Run.require (dst.nwords = src.nwords)
  if src.nwords > 0 then do
    let addr ← Run.demand dst.words
    Run.require (dst.words ≠ src.words)
    let words ← readWords src
    let target ← Heap.read addr
    Run.require (src.nwords ≤ words.length ∧ src.nwords ≤ target.length)
    Heap.write addr (words.take src.nwords ++ target.drop src.nwords)

/-- `fill_words`: `byte` into every byte of the words. -/
def fillWords (self : BitSet) (byte : BitVec 8) : Run BitSetMem Unit := do
  if self.nwords > 0 then do
    let addr ← Run.demand self.words
    let target ← Heap.read addr
    Run.require (self.nwords ≤ target.length)
    let word : Word := BitVec.replicate 8 byte
    Heap.write addr (List.replicate self.nwords word ++ target.drop self.nwords)

/-- `clear_tail`. -/
def clearTail (self : BitSet) : Run BitSetMem Unit := do
  if self.nwords > 0 then do
    let word ← readWord self (self.nwords - 1)
    writeWord self (self.nwords - 1) (word &&& tailMask self.nbits)

/-! ## Lifetime -/

/-- `tda_bitset_init_nbits`, with what it writes to `out`. -/
def initNbits (nbits : Nat) (al : Al) : Run BitSetMem (Status × Option BitSet) := do
  Run.require (al.isSome)
  let obj : BitSet := ⟨none, nbits, wordsFor nbits, al⟩
  if obj.nwords > 0 then
    match ← allocN al wordLayout obj.nwords (List.replicate obj.nwords 0#64) with
    | none => return (.errNoMem, none)
    | some words =>
        let obj := { obj with words := some words }
        assertBitSet obj
        return (.ok, some obj)
  else
    assertBitSet obj
    return (.ok, some obj)

/-- `tda_bitset_deinit`. -/
def deinit (self : BitSet) : Run BitSetMem BitSet := do
  if self.al.isSome then
    assertBitSet self
    deallocN self.al self.words wordLayout self.nwords
    return inert
  else
    Run.require (self.words = none)
    return self

/-- `tda_bitset_copy_with`. -/
def copyWith (self : BitSet) (al : Al) : Run BitSetMem (Status × Option BitSet) := do
  assertBitSet self
  Run.require (al.isSome)
  match ← initNbits self.nbits al with
  | (st, none) => return (st, none)
  | (_, some copy) =>
      copyWords copy self
      return (.ok, some copy)

/-- `tda_bitset_copy`. -/
def copy (self : BitSet) : Run BitSetMem (Status × Option BitSet) := do
  assertBitSet self
  copyWith self self.al

/-- What a block of `count` words holds of the words it held before; those
beyond are not specified. -/
def cutWords (count : Nat) (words : List Word) : List Word :=
  words.take count ++ List.replicate (count - words.length) 0#64

/-- `tda_bitset_copy_assign` of two objects. -/
def copyOver (self other : BitSet) : Run BitSetMem (Status × BitSet) := do
  let resized ← if self.nwords ≠ other.nwords then do
      let newWords ← reallocN self.al self.words wordLayout self.nwords other.nwords
        (List.replicate other.nwords 0#64) (cutWords other.nwords)
      if other.nwords > 0 ∧ newWords = none then
        pure none
      else
        pure (some { self with words := newWords, nwords := other.nwords })
    else
      pure (some self)
  match resized with
  | none => return (.errNoMem, self)
  | some self =>
      let self := { self with nbits := other.nbits }
      copyWords self other
      assertBitSet self
      return (.ok, self)

/-! ## One bit -/

/-- The word that has the bit, and the bit in it. -/
def onBit (self : BitSet) (idx : Nat) (edit : Word -> Word -> Word) : Run BitSetMem Unit := do
  Run.require (self.al.isSome)
  Run.require (idx < self.nbits)
  let word ← readWord self (idx / 64)
  writeWord self (idx / 64) (edit word (1#64 <<< (idx % 64)))

/-- `tda_bitset_test`. -/
def test (self : BitSet) (idx : Nat) : Run BitSetMem Bool := do
  Run.require (self.al.isSome)
  Run.require (idx < self.nbits)
  let word ← readWord self (idx / 64)
  return decide (word &&& (1#64 <<< (idx % 64)) ≠ 0#64)

/-- `tda_bitset_set`. -/
def set (self : BitSet) (idx : Nat) : Run BitSetMem Unit := onBit self idx fun word bit => word ||| bit

/-- `tda_bitset_reset`. -/
def reset (self : BitSet) (idx : Nat) : Run BitSetMem Unit := onBit self idx fun word bit => word &&& ~~~ bit

/-- `tda_bitset_flip`. -/
def flip (self : BitSet) (idx : Nat) : Run BitSetMem Unit := onBit self idx fun word bit => word ^^^ bit

/-- `tda_bitset_set_to`. -/
def setTo (self : BitSet) (idx : Nat) (val : Bool) : Run BitSetMem Unit := do
  assertBitSet self
  Run.require (idx < self.nbits)
  if val = true then set self idx else reset self idx

/-- `tda_bitset_from_span`. -/
def fromSpan (nbits : Nat) (s : SpanView Nat) (al : Al) : Run BitSetMem (Status × Option BitSet) := do
  Run.require (s.elem = ⟨8, 8⟩)
  match ← initNbits nbits al with
  | (st, none) => return (st, none)
  | (_, some obj) =>
      Run.countUp (fun i _ => do
        let idx ← Run.demand s.elems[i]?
        set obj idx) s.len 0 ()
      assertBitSet obj
      return (.ok, some obj)

/-! ## All bits -/

/-- `tda_bitset_set_all`. -/
def setAll (self : BitSet) : Run BitSetMem Unit := do
  assertBitSet self
  fillWords self 0xFF
  clearTail self
  assertBitSet self

/-- `tda_bitset_reset_all`. -/
def resetAll (self : BitSet) : Run BitSetMem Unit := do
  assertBitSet self
  fillWords self 0
  assertBitSet self

/-- `tda_bitset_flip_all`. -/
def flipAll (self : BitSet) : Run BitSetMem Unit := do
  assertBitSet self
  Run.countUp (fun w _ => do
    let word ← readWord self w
    writeWord self w (~~~ word)) self.nwords 0 ()
  clearTail self
  assertBitSet self

/-! ## Info -/

/-- `tda_bitset_count`. -/
def count (self : BitSet) : Run BitSetMem Nat := do
  assertBitSet self
  Run.countUp (fun w count => do
    let word ← readWord self w
    return wrapAdd count word.cpop.toNat) self.nwords 0 0

/-- Whether some word passes; the first that does ends the walk. -/
def anyWord (nwords : Nat) (passes : Nat -> Run BitSetMem Bool) : Run BitSetMem Bool :=
  Run.loop (fun w => do
    if w < nwords then
      if ← passes w then
        return .leave true
      return .again (w + 1)
    else
      return .leave false) (nwords + 1) 0

/-- `tda_bitset_any`. -/
def any (self : BitSet) : Run BitSetMem Bool := do
  assertBitSet self
  anyWord self.nwords fun w => do
    let word ← readWord self w
    return decide (word ≠ 0#64)

/-- `tda_bitset_all`. -/
def all (self : BitSet) : Run BitSetMem Bool := do
  assertBitSet self
  let misses ← anyWord self.nwords fun w => do
    let want := if w + 1 = self.nwords then tailMask self.nbits else wordOnes
    let word ← readWord self w
    return decide (word ≠ want)
  return !misses

/-- `tda_bitset_none`. -/
def none_ (self : BitSet) : Run BitSetMem Bool := do
  assertBitSet self
  let found ← any self
  return !found

/-! ## Set operations -/

/-- The loop of the operations on two sets: each word of `self` with that of `other`. -/
def combine (self other : BitSet) (edit : Word -> Word -> Word) : Run BitSetMem Unit :=
  Run.countUp (fun w _ => do
    let theirs ← readWord other w
    let mine ← readWord self w
    writeWord self w (edit mine theirs)) self.nwords 0 ()

/-- The operations on two sets. -/
inductive Combination where
  | union
  | intersection
  | difference
  | symmetricDifference

/-- `|=`, `&=`, `&= ~` and `^=`. -/
def Combination.edit : Combination -> Word -> Word -> Word
  | union, mine, theirs => mine ||| theirs
  | intersection, mine, theirs => mine &&& theirs
  | difference, mine, theirs => mine &&& ~~~ theirs
  | symmetricDifference, mine, theirs => mine ^^^ theirs

/-- What `tda_bitset_eq` compares of two objects. -/
def eqImpl (a b : BitSet) : Run BitSetMem Bool := do
  if a.nbits ≠ b.nbits then
    return false
  if a.nwords = 0 then
    return true
  let mine ← readWords a
  let theirs ← readWords b
  Run.require (a.nwords ≤ mine.length ∧ a.nwords ≤ theirs.length)
  return decide (mine.take a.nwords = theirs.take a.nwords)

/-- The loop of `tda_bitset_is_subset`. -/
def isSubsetImpl (self other : BitSet) : Run BitSetMem Bool := do
  let stray ← anyWord self.nwords fun w => do
    let mine ← readWord self w
    let theirs ← readWord other w
    return decide (mine &&& ~~~ theirs ≠ 0#64)
  return !stray

/-- The loop of `tda_bitset_intersects`. -/
def intersectsImpl (self other : BitSet) : Run BitSetMem Bool :=
  anyWord self.nwords fun w => do
    let mine ← readWord self w
    let theirs ← readWord other w
    return decide (mine &&& theirs ≠ 0#64)

end BitSet
end TerseDsa
