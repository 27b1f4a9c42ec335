import TerseDsa.BitSet.Model
import TerseDsa.Foundation.Bits

namespace TerseDsa

open Foundation Run

/-!
# The words of a bitset

What each access to the block does to its words, and what the words say about
the indices of the universe.
-/

namespace BitSet

variable {heap : BitSetMem} {self other : BitSet} {words mine theirs : List Word} {word : Word}
  {w idx nbits : Nat}

/-! ## The last word -/

theorem getLsbD_tailMask {bit : Nat} (within : bit < 64) :
    (tailMask nbits).getLsbD bit = decide (nbits % 64 = 0 ∨ bit < nbits % 64) := by
  unfold tailMask wordBits wordOnes
  dsimp only
  by_cases whole : nbits % 64 = 0
  · rw [if_pos whole, BitVec.getLsbD_allOnes]
    simp only [whole, within, true_or]
  · have below : nbits % 64 < 64 := Nat.mod_lt _ (by decide)
    have small : 2 ^ (nbits % 64) < 2 ^ 64 := Nat.pow_lt_pow_right (by decide) below
    have mask : ((1#64 <<< (nbits % 64)) - 1#64).toNat = 2 ^ (nbits % 64) - 1 := by
      have one : (1#64 <<< (nbits % 64)).toNat = 2 ^ (nbits % 64) := by
        rw [BitVec.toNat_shiftLeft, BitVec.toNat_ofNat, Nat.one_mod_eq_one.mpr (by decide), Nat.one_shiftLeft,
          Nat.mod_eq_of_lt small]
      rw [BitVec.toNat_sub_of_le]
      · rw [one]
        rfl
      · rw [BitVec.le_def, one]
        exact Nat.one_le_two_pow
    rw [if_neg whole, BitVec.getLsbD, mask, Nat.testBit_two_pow_sub_one]
    simp only [whole, false_or]

/-- An index of the last word is in the universe exactly if the mask has its bit. -/
theorem live_iff (last : idx / 64 + 1 = wordsFor nbits) :
    (tailMask nbits).getLsbD (idx % 64) = decide (idx < nbits) := by
  rw [getLsbD_tailMask (Nat.mod_lt _ (by decide))]
  unfold wordsFor wordBits at last
  congr 1
  apply propext
  split at last <;> omega

/-- All indices of the words before the last one are in the universe. -/
theorem live_of_lt (early : idx / 64 + 1 < wordsFor nbits) : idx < nbits := by
  unfold wordsFor wordBits at early
  split at early <;> omega

/-- The universe ends within the words. -/
theorem wordsFor_lt (inside : idx < nbits) : idx / 64 < wordsFor nbits := by
  unfold wordsFor wordBits
  split <;> omega

theorem wordsFor_eq_zero : wordsFor nbits = 0 <-> nbits = 0 := by
  unfold wordsFor wordBits
  split <;> omega

theorem wordsFor_eq_ceil (nbits : Nat) : wordsFor nbits = (nbits + 63) / 64 := by
  unfold wordsFor wordBits
  split <;> omega

/-! ## The representation -/

/-- The words are those of the bitset's block; it has none if there are none. -/
structure Rep (blocks : Blocks AlTag (List Word)) (set : BitSet) (words : List Word) : Prop where
  real : set.al.isSome = true
  small : set.nbits < sizeRange
  count : set.nwords = wordsFor set.nbits
  length : words.length = set.nwords
  block : Owns blocks set.al wordLayout set.words set.nwords words

namespace Rep

theorem congr {later : Blocks AlTag (List Word)} (rep : Rep heap.blocks self words)
    (agree : forall addr, addr ∈ self.words.toList -> later addr = heap.blocks addr) : Rep later self words :=
  ⟨rep.real, rep.small, rep.count, rep.length, rep.block.congr agree⟩

/-- A bitset has one block, and the block one content. -/
theorem unique {later : Blocks AlTag (List Word)} (rep : Rep later self words) (also : Rep later self mine) :
    words = mine := by
  by_cases empty : self.nwords = 0
  · rw [List.eq_nil_of_length_eq_zero (rep.length.trans empty),
      List.eq_nil_of_length_eq_zero (also.length.trans empty)]
  · rcases rep.block.block_at (Nat.pos_of_ne_zero empty) with ⟨addr, at_, block⟩
    rcases also.block.block_at (Nat.pos_of_ne_zero empty) with ⟨there, alsoAt, alsoBlock⟩
    rw [at_] at alsoAt
    cases alsoAt
    rw [block] at alsoBlock
    cases alsoBlock
    rfl

theorem nwords_small (rep : Rep heap.blocks self words) : self.nwords ≤ 2 ^ 58 := by
  have small := rep.small
  rw [rep.count, wordsFor_eq_ceil]
  unfold sizeRange at small
  omega

end Rep

theorem ends_readWord (rep : Rep heap.blocks self words) (inside : w < words.length)
    {post : Word -> BitSetMem -> Prop} : Ends (readWord self w) heap post <-> post words[w] heap := by
  rcases rep.block.block_at (Nat.lt_of_le_of_lt (Nat.zero_le w) (rep.length ▸ inside)) with ⟨addr, at_, block⟩
  simp only [readWord, readWords, at_, ends_bind, ends_demand_some, Heap.ends_read block,
    List.getElem?_eq_getElem inside]

/-- The block is written over with as many words. -/
theorem rep_of_write {addr : Addr} {block : Block AlTag (List Word)} (rep : Rep heap.blocks self words)
    (at_ : self.words = some addr) (live : heap.blocks addr = some block)
    (length : mine.length = words.length) :
    Rep (heap.put addr (some { block with cell := mine })).blocks self mine ∧
      Evolves heap.blocks (heap.put addr (some { block with cell := mine })).blocks self.words.toList
        self.words.toList := by
  have written := rep.block.write at_ live mine
  exact ⟨⟨rep.real, rep.small, rep.count, length.trans rep.length, written.1⟩, written.2⟩

theorem ends_writeWord (rep : Rep heap.blocks self words) (inside : w < words.length)
    {post : Unit -> BitSetMem -> Prop}
    (done : forall later : BitSetMem, Rep later.blocks self (words.set w word) ->
      Evolves heap.blocks later.blocks self.words.toList self.words.toList -> post () later) :
    Ends (writeWord self w word) heap post := by
  rcases rep.block.block_at (Nat.lt_of_le_of_lt (Nat.zero_le w) (rep.length ▸ inside)) with ⟨addr, at_, block⟩
  have length : (words.set w word).length = words.length := List.length_set
  have written := rep_of_write rep at_ block length
  simp only [writeWord, at_, ends_bind, ends_demand_some, Heap.ends_read block, ends_require,
    inside, true_and, Heap.ends_write block]
  exact done _ written.1 written.2

/-- Overwriting the words that a bitset of no words does not have does nothing. -/
theorem nothing_to_write (rep : Rep heap.blocks self words) (empty : ¬ 0 < self.nwords)
    (length : mine.length = self.nwords) : words = mine := by
  have none_ := Nat.eq_zero_of_not_pos empty
  rw [List.eq_nil_of_length_eq_zero (rep.length.trans none_), List.eq_nil_of_length_eq_zero (length.trans none_)]

theorem ends_fillWords {byte : BitVec 8} (rep : Rep heap.blocks self words)
    {post : Unit -> BitSetMem -> Prop}
    (done : forall later : BitSetMem,
      Rep later.blocks self (List.replicate self.nwords (BitVec.replicate 8 byte : Word)) ->
      Evolves heap.blocks later.blocks self.words.toList self.words.toList -> post () later) :
    Ends (fillWords self byte) heap post := by
  unfold fillWords
  by_cases some_ : 0 < self.nwords
  · rcases rep.block.block_at some_ with ⟨addr, at_, block⟩
    have length : (List.replicate self.nwords (BitVec.replicate 8 byte : Word)).length = words.length := by
      rw [List.length_replicate, rep.length]
    have written := rep_of_write rep at_ block length
    have rest : words.drop self.nwords = [] := List.drop_of_length_le (Nat.le_of_eq rep.length)
    simp only [if_pos some_, at_, ends_bind, ends_demand_some, Heap.ends_read block, ends_require,
      Nat.le_of_eq rep.length.symm, true_and, Heap.ends_write block, rest, List.append_nil]
    exact done _ written.1 written.2
  · simp only [if_neg some_, ends_pure]
    apply done heap _ (Evolves.refl _ _)
    rwa [← nothing_to_write rep some_ List.length_replicate]

theorem ends_copyWords (rep : Rep heap.blocks self mine) (repOther : Rep heap.blocks other theirs)
    (same : self.nwords = other.nwords) (apart : forall addr, addr ∈ other.words.toList -> addr ∉ self.words.toList)
    {post : Unit -> BitSetMem -> Prop}
    (done : forall later : BitSetMem, Rep later.blocks self theirs ->
      Evolves heap.blocks later.blocks self.words.toList self.words.toList -> post () later) :
    Ends (copyWords self other) heap post := by
  have theirLength : theirs.length = self.nwords := repOther.length.trans same.symm
  unfold copyWords
  simp only [ends_bind, ends_require, same, true_and]
  by_cases some_ : 0 < other.nwords
  · rcases rep.block.block_at (same ▸ some_) with ⟨addr, at_, block⟩
    rcases repOther.block.block_at some_ with ⟨source, there, blockThere⟩
    have written := rep_of_write rep at_ block (theirLength.trans rep.length.symm)
    have different : some addr ≠ some source := by
      rintro equal
      refine apart source (by rw [there]; exact List.mem_singleton_self source) ?_
      rw [at_, equal]
      exact List.mem_singleton_self source
    have whole : theirs.take other.nwords = theirs := List.take_of_length_le (Nat.le_of_eq repOther.length)
    have rest : mine.drop other.nwords = [] := List.drop_of_length_le (Nat.le_of_eq (rep.length.trans same))
    simp only [if_pos some_, at_, there, readWords, ends_bind, ends_demand_some, ends_require,
      ne_eq, different, not_false_eq_true, true_and, Heap.ends_read block, Heap.ends_read blockThere,
      Nat.le_of_eq repOther.length.symm, Nat.le_of_eq (rep.length.trans same).symm, Heap.ends_write block,
      whole, rest, List.append_nil]
    exact done _ written.1 written.2
  · simp only [if_neg some_, ends_pure]
    apply done heap _ (Evolves.refl _ _)
    rwa [← nothing_to_write rep (same ▸ some_) theirLength]

/-- What `clear_tail` leaves of the bits: those in the universe. -/
theorem ends_clearTail (rep : Rep heap.blocks self words) {post : Unit -> BitSetMem -> Prop}
    (done : forall (later : BitSetMem) (cleared : List Word), Rep later.blocks self cleared ->
      (forall idx, bitAt cleared idx = (bitAt words idx && decide (idx < self.nbits))) ->
      Evolves heap.blocks later.blocks self.words.toList self.words.toList -> post () later) :
    Ends (clearTail self) heap post := by
  unfold clearTail
  by_cases some_ : 0 < self.nwords
  · have inside : self.nwords - 1 < words.length := by
      rw [rep.length]
      exact Nat.sub_lt some_ Nat.one_pos
    simp only [if_pos some_, ends_bind, ends_readWord rep inside]
    apply ends_writeWord rep inside
    intro later written evolves
    refine done later _ written (fun idx => ?_) evolves
    rw [bitAt_set inside]
    by_cases last : idx / 64 = self.nwords - 1
    · rw [if_pos last, BitVec.getLsbD_and, live_iff (by rw [last, Nat.sub_add_cancel some_, rep.count])]
      rw [bitAt_of_lt (last ▸ inside)]
      simp only [last]
    · rw [if_neg last]
      by_cases early : idx / 64 + 1 < wordsFor self.nbits
      · rw [decide_eq_true (live_of_lt early), Bool.and_true]
      · rw [bitAt_of_le (by rw [rep.length, rep.count]; rw [rep.count] at last; omega), Bool.false_and]
  · simp only [if_neg some_, ends_pure]
    refine done heap words rep (fun idx => ?_) (Evolves.refl _ _)
    rw [bitAt_of_le, Bool.false_and]
    rw [rep.length, Nat.eq_zero_of_not_pos some_]
    exact Nat.zero_le _

/-! ## Going through the words -/

/-- A loop that gives every word its last value in its turn; before its turn
a word is what it was. -/
theorem ends_everyWord {body : Nat -> Unit -> Run BitSetMem Unit} {final : List Word}
    (rep : Rep heap.blocks self words) (length : final.length = words.length)
    (step : forall (w : Nat) (_ : w < words.length) (inside' : w < final.length) (mid : BitSetMem)
      (post : Unit -> BitSetMem -> Prop),
      Rep mid.blocks self (final.take w ++ words.drop w) ->
      Evolves heap.blocks mid.blocks self.words.toList self.words.toList ->
      Ends (writeWord self w final[w]) mid post -> Ends (body w ()) mid post)
    {post : Unit -> BitSetMem -> Prop}
    (done : forall later : BitSetMem, Rep later.blocks self final ->
      Evolves heap.blocks later.blocks self.words.toList self.words.toList -> post () later) :
    Ends (countUp body self.nwords 0 ()) heap post := by
  apply ends_countUp (fun w (_ : Unit) (mid : BitSetMem) =>
    Rep mid.blocks self (final.take w ++ words.drop w) ∧
      Evolves heap.blocks mid.blocks self.words.toList self.words.toList) (Nat.zero_add _)
  · intro w _ mid _ turn ⟨now, evolves⟩
    have inside : w < words.length := rep.length.symm ▸ turn
    have inside' : w < final.length := length.symm ▸ inside
    apply step w inside inside' mid _ now evolves
    have whole : (final.take w ++ words.drop w).length = words.length := now.length.trans rep.length.symm
    apply ends_writeWord now (whole.symm ▸ inside)
    intro later written further
    refine ⟨?_, evolves.trans further⟩
    rwa [List.set_append_right _ _ (by rw [List.length_take]; exact Nat.min_le_left _ _), List.length_take,
      Nat.min_eq_left (Nat.le_of_lt inside'), Nat.sub_self, List.drop_eq_getElem_cons inside, List.set_cons_zero,
      List.append_cons, ← List.take_succ_eq_append_getElem inside'] at written
  · intro _ later ⟨now, evolves⟩
    apply done later _ evolves
    rwa [List.take_of_length_le (by rw [length, rep.length]), List.drop_of_length_le (by rw [rep.length]),
      List.append_nil] at now
  · exact ⟨by simpa using rep, Evolves.refl _ _⟩

/-- A word whose turn is still to come. -/
theorem getElem_turn {final : List Word} (inside : w < words.length) (length : final.length = words.length)
    (inside' : w < (final.take w ++ words.drop w).length) : (final.take w ++ words.drop w)[w] = words[w] := by
  have before : (final.take w).length = w := by
    rw [List.length_take, length, Nat.min_eq_left (Nat.le_of_lt inside)]
  rw [List.getElem_append_right (Nat.le_of_eq before)]
  simp only [before, Nat.sub_self, List.getElem_drop, Nat.add_zero]

/-- The walk that ends at the first word that passes. -/
theorem ends_anyWord {passes : Nat -> Run BitSetMem Bool} {test : Nat -> Bool} {count : Nat}
    (step : forall w, w < count -> forall post : Bool -> BitSetMem -> Prop,
      post (test w) heap -> Ends (passes w) heap post) :
    Ends (anyWord count passes) heap fun found later =>
      later = heap ∧ (found = true <-> exists w, w < count ∧ test w = true) := by
  unfold anyWord
  refine ends_loop (fun left w mid => mid = heap ∧ w + left = count ∧ forall k, k < w -> test k = false)
    ?_ (n := count) ⟨rfl, Nat.zero_add _, fun k low => absurd low (Nat.not_lt_zero k)⟩ (Nat.lt_succ_self _)
  rintro left w mid ⟨rfl, total, before⟩
  rw [ends_ite]
  constructor
  · intro inside
    rw [ends_bind]
    apply step w inside
    cases passed : test w with
    | true =>
        simp only [if_true, ends_pure, true_and, true_iff]
        exact ⟨w, inside, passed⟩
    | false =>
        simp only [Bool.false_eq_true, if_false, ends_pure, true_and]
        refine ⟨left - 1, by omega, by omega, fun k low => ?_⟩
        rcases Nat.lt_succ_iff_lt_or_eq.mp low with early | rfl
        · exact before k early
        · exact passed
  · intro outside
    simp only [ends_pure, Bool.false_eq_true, true_and, false_iff, not_exists, not_and,
      Bool.not_eq_true]
    exact fun k low => before k (by omega)

/-- A walk that compares words with others finds whether some bit differs. -/
theorem ends_differs {passes : Nat -> Run BitSetMem Bool} {count : Nat} (left right : Nat -> Word)
    (differs : Nat -> Prop)
    (step : forall w, w < count -> forall post : Bool -> BitSetMem -> Prop,
      post (decide (left w ≠ right w)) heap -> Ends (passes w) heap post)
    (bits : forall w bit, w < count -> bit < 64 ->
      ((left w).getLsbD bit ≠ (right w).getLsbD bit <-> differs (w * 64 + bit)))
    (within : forall idx, differs idx -> idx / 64 < count) :
    Ends (anyWord count passes) heap fun found later =>
      later = heap ∧ (found = true <-> exists idx, differs idx) := by
  refine (ends_anyWord step).mono ?_
  rintro found later ⟨rfl, found_⟩
  refine ⟨rfl, found_.trans ?_⟩
  simp only [decide_eq_true_eq, ne_iff_getLsbD]
  constructor
  · rintro ⟨w, inside, bit, small, different⟩
    exact ⟨w * 64 + bit, (bits w bit inside small).mp different⟩
  · rintro ⟨idx, there⟩
    have small : idx % 64 < 64 := Nat.mod_lt _ (by decide)
    refine ⟨idx / 64, within idx there, idx % 64, small, (bits _ _ (within idx there) small).mpr ?_⟩
    rwa [Nat.mul_comm, Nat.div_add_mod]

end BitSet
end TerseDsa
