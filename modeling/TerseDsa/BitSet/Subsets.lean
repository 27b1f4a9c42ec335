import TerseDsa.BitSet.Words

namespace TerseDsa

open Foundation Run

/-!
# The subset a bitset stands for

`Subset` says what a bitset is for: a universe of indices below `nbits` and
some of them.  A bitset stands for one if the bits that are set in its words
are its members, so that no bit at or above `nbits` is.
-/

/-- Some of the indices below `nbits`. -/
@[ext] structure Subset where
  nbits : Nat
  members : Finset Nat
  within : members ⊆ Finset.range nbits

namespace Subset

/-- No index of a universe. -/
def bare (nbits : Nat) : Subset := ⟨nbits, ∅, Finset.empty_subset _⟩

/-- Other members from the same universe. -/
def edit (subset : Subset) (change : Finset Nat -> Finset Nat) : Subset :=
  ⟨subset.nbits, change subset.members ∩ Finset.range subset.nbits, Finset.inter_subset_right⟩

end Subset

namespace BitSet

/-- What an operation on two sets makes of the members. -/
def Combination.on : Combination -> Finset Nat -> Finset Nat -> Finset Nat
  | union, mine, theirs => mine ∪ theirs
  | intersection, mine, theirs => mine ∩ theirs
  | difference, mine, theirs => mine \ theirs
  | symmetricDifference, mine, theirs => symmDiff mine theirs

variable {heap : BitSetMem} {self other after : BitSet} {words mine theirs : List Word} {idx nbits : Nat}
  {subset mySubset theirSubset : Subset}

/-- The words of a bitset that stands for a subset. -/
structure Held (blocks : Blocks AlTag (List Word)) (set : BitSet) (subset : Subset) (words : List Word) :
    Prop where
  rep : Rep blocks set words
  nbits : set.nbits = subset.nbits
  bits : ones words = subset.members

/-- The bitset stands for the subset. -/
def Holds (blocks : Blocks AlTag (List Word)) (set : BitSet) (subset : Subset) : Prop :=
  exists words, Held blocks set subset words

namespace Held

theorem bit (held : Held heap.blocks self subset words) : bitAt words idx = decide (idx ∈ subset.members) := by
  rw [← held.bits, Bool.eq_iff_iff, decide_eq_true_eq, mem_ones (by decide)]

/-- No bit is set above the universe. -/
theorem small (held : Held heap.blocks self subset words) (member : idx ∈ subset.members) : idx < self.nbits := by
  rw [held.nbits]
  exact Finset.mem_range.mp (subset.within member)

theorem inside (held : Held heap.blocks self subset words) (small : idx < self.nbits) :
    idx / 64 < words.length := by
  rw [held.rep.length, held.rep.count]
  exact wordsFor_lt small

/-- Words whose bits are those of a change of the members. -/
theorem of_bits {change : Finset Nat -> Finset Nat} (rep : Rep heap.blocks self words)
    (nbits : self.nbits = subset.nbits)
    (bits : forall idx, bitAt words idx = decide (idx ∈ change subset.members ∧ idx < self.nbits)) :
    Held heap.blocks self (subset.edit change) words := by
  refine ⟨rep, nbits, ?_⟩
  ext idx
  rw [mem_ones (by decide), bits, decide_eq_true_eq, nbits]
  unfold Subset.edit
  rw [Finset.mem_inter, Finset.mem_range]

end Held

namespace Holds

theorem of_bare {blocks : Blocks AlTag (List Word)} {al : Al} (real : al.isSome = true) :
    Holds blocks ⟨none, 0, 0, al⟩ (Subset.bare 0) := by
  refine ⟨[], ⟨real, (by decide : 0 < sizeRange), (wordsFor_eq_zero.mpr rfl).symm, rfl, Or.inl ⟨rfl, rfl⟩⟩, rfl, ?_⟩
  exact (ones_eq_empty (by decide)).mpr fun word member => absurd member List.not_mem_nil

theorem ends_assertBitSet (holds : Holds heap.blocks self subset) {post : Unit -> BitSetMem -> Prop} :
    Ends (assertBitSet self) heap post <-> post () heap := by
  rcases holds with ⟨words, held⟩
  have rep := held.rep
  have presence : (self.nwords > 0 ∨ self.words = none) ∧ (self.nwords = 0 ∨ self.words.isSome = true) := by
    rcases rep.block with ⟨none_, empty⟩ | ⟨addr, at_, some_, _⟩
    · exact ⟨Or.inr none_, Or.inl empty⟩
    · exact ⟨Or.inl some_, Or.inr (by rw [at_]; rfl)⟩
  unfold assertBitSet
  simp only [ends_bind, ends_require, ← rep.count, presence.1, presence.2, true_and]
  by_cases empty : self.nwords = 0
  · simp only [ne_eq, empty, not_true_eq_false, if_false, ends_require, rep.real, true_and]
  · have inside : self.nwords - 1 < words.length := by
      rw [rep.length]
      omega
    have clear : words[self.nwords - 1] &&& ~~~ tailMask self.nbits = 0#64 := by
      apply BitVec.eq_of_getLsbD_eq
      intro bit within
      have place : ((self.nwords - 1) * 64 + bit) % 64 = bit := by omega
      have live : (tailMask self.nbits).getLsbD (((self.nwords - 1) * 64 + bit) % 64) =
          decide ((self.nwords - 1) * 64 + bit < self.nbits) := live_iff (by rw [← rep.count]; omega)
      rw [place] at live
      rw [BitVec.getLsbD_and, BitVec.getLsbD_not, live, ← bitAt_word inside within, held.bit, BitVec.getLsbD_zero,
        decide_eq_true within, Bool.true_and]
      by_cases member : (self.nwords - 1) * 64 + bit ∈ subset.members
      · rw [decide_eq_true (held.small member), Bool.not_true, Bool.and_false]
      · rw [decide_eq_false member, Bool.false_and]
    simp only [ne_eq, empty, not_false_eq_true, if_true, ends_bind, ends_readWord rep inside, ends_require,
      clear, rep.real, true_and]

end Holds

/-! ## What operations do -/

/-- From one bitset to another that stands for `subset`, on one allocator. -/
structure Tends (blocks later : Blocks AlTag (List Word)) (set after : BitSet) (subset : Subset) : Prop where
  holds : Holds later after subset
  evolves : Evolves blocks later set.words.toList after.words.toList
  al : after.al = set.al

/-- A bitset that was built over a block of its own. -/
structure Born (before later : Blocks AlTag (List Word)) (made : BitSet) (subset : Subset) (al : Al) : Prop where
  holds : Holds later made subset
  evolves : Evolves before later [] made.words.toList
  al : made.al = al

/-! ## One bit -/

theorem getLsbD_bit {bit place : Nat} (within : place < 64) :
    (1#64 <<< bit).getLsbD place = decide (place = bit) := by
  rw [BitVec.getLsbD_shiftLeft, BitVec.getLsbD_one]
  by_cases same : place = bit
  · simp [same]
    omega
  · by_cases early : place < bit
    · simp [early, same]
    · have later : place - bit ≠ 0 := by omega
      simp [later, same]

/-- `edit` gives bit `bit` of a word another value and keeps the others. -/
def OneBit (edit : Word -> Word -> Word) (value : Bool -> Bool) : Prop :=
  forall (word : Word) (bit place : Nat), place < 64 ->
    (edit word (1#64 <<< bit)).getLsbD place = if place = bit then value (word.getLsbD place) else word.getLsbD place

theorem oneBit_set : OneBit (fun word bit => word ||| bit) fun _ => true := by
  intro word bit place within
  rw [BitVec.getLsbD_or, getLsbD_bit within]
  by_cases same : place = bit <;> simp [same]

theorem oneBit_reset : OneBit (fun word bit => word &&& ~~~ bit) fun _ => false := by
  intro word bit place within
  rw [BitVec.getLsbD_and, BitVec.getLsbD_not, getLsbD_bit within]
  by_cases same : place = bit <;> simp [same, within]

theorem oneBit_flip : OneBit (fun word bit => word ^^^ bit) fun was => !was := by
  intro word bit place within
  rw [BitVec.getLsbD_xor, getLsbD_bit within]
  by_cases same : place = bit <;> simp [same]

theorem ends_onBit {edit : Word -> Word -> Word} {value : Bool -> Bool} {change : Finset Nat -> Finset Nat}
    (holds : Holds heap.blocks self subset) (small : idx < self.nbits) (oneBit : OneBit edit value)
    (changes : forall place, place ∈ change subset.members <->
      if place = idx then value (decide (place ∈ subset.members)) = true else place ∈ subset.members)
    {post : Unit -> BitSetMem -> Prop}
    (done : forall later : BitSetMem, Tends heap.blocks later.blocks self self (subset.edit change) ->
      post () later) :
    Ends (onBit self idx edit) heap post := by
  rcases holds with ⟨words, held⟩
  have inside := held.inside small
  simp only [onBit, ends_bind, ends_require, held.rep.real, small, true_and, ends_readWord held.rep inside]
  apply ends_writeWord held.rep inside
  intro later written evolves
  refine done later ⟨⟨_, Held.of_bits written held.nbits fun place => ?_⟩, evolves, rfl⟩
  have within : place % 64 < 64 := Nat.mod_lt _ (by decide)
  rw [bitAt_set inside, Bool.eq_iff_iff, decide_eq_true_eq, changes]
  by_cases sameWord : place / 64 = idx / 64
  · have there : words[idx / 64].getLsbD (place % 64) = decide (place ∈ subset.members) := by
      rw [← held.bit, bitAt_of_lt (sameWord ▸ inside)]
      simp only [sameWord]
    rw [if_pos sameWord, oneBit _ _ _ within, there]
    by_cases here : place = idx
    · subst here
      rw [if_pos rfl, if_pos rfl]
      exact ⟨fun on => ⟨on, small⟩, And.left⟩
    · have apart : place % 64 ≠ idx % 64 := by omega
      rw [if_neg apart, if_neg here, decide_eq_true_eq]
      exact ⟨fun member => ⟨member, held.small member⟩, And.left⟩
  · have here : place ≠ idx := by
      rintro rfl
      exact sameWord rfl
    rw [if_neg sameWord, if_neg here, held.bit, decide_eq_true_eq]
    exact ⟨fun member => ⟨member, held.small member⟩, And.left⟩

/-- Membership is what `test` tells. -/
theorem ends_test (holds : Holds heap.blocks self subset) (small : idx < self.nbits)
    {post : Bool -> BitSetMem -> Prop} :
    Ends (test self idx) heap post <-> post (decide (idx ∈ subset.members)) heap := by
  rcases holds with ⟨words, held⟩
  have inside := held.inside small
  have answer : decide (words[idx / 64] &&& (1#64 <<< (idx % 64)) ≠ 0#64) = decide (idx ∈ subset.members) := by
    rw [← held.bit, bitAt_of_lt inside, Bool.eq_iff_iff, decide_eq_true_eq]
    constructor
    · intro some_
      by_contra clear
      apply some_
      apply BitVec.eq_of_getLsbD_eq
      intro place within
      rw [BitVec.getLsbD_and, getLsbD_bit within, BitVec.getLsbD_zero]
      by_cases here : place = idx % 64
      · rw [here, Bool.eq_false_iff.mpr clear, Bool.false_and]
      · rw [decide_eq_false here, Bool.and_false]
    · intro set_ zero
      have bit := congrArg (fun word : Word => word.getLsbD (idx % 64)) zero
      simp only [BitVec.getLsbD_and, set_, getLsbD_bit (Nat.mod_lt idx (by decide : 0 < 64)), decide_true,
        Bool.and_self, BitVec.getLsbD_zero, Bool.true_eq_false] at bit
  simp only [test, ends_bind, ends_require, held.rep.real, small, true_and, ends_readWord held.rep inside,
    ends_pure, answer]

end BitSet
end TerseDsa
