import TerseDsa.BitSet.Subsets

namespace TerseDsa

open Foundation Run

/-!
# Operations on bitsets

What each operation makes of the subset a bitset stands for, and what it tells
about it.
-/

namespace BitSet

variable {heap : BitSetMem} {self other : BitSet} {words mine theirs : List Word} {idx nbits : Nat}
  {subset mySubset theirSubset : Subset} {al : Al}

/-! ## Lifetime -/

theorem wordLayout_ckdArray (small : nbits < sizeRange) :
    wordLayout.ckdArray (wordsFor nbits) = some ⟨wordLayout.size * wordsFor nbits, wordLayout.align⟩ ∧
      wordLayout.size * wordsFor nbits < sizeRange := by
  have fits : 8 * wordsFor nbits < sizeRange := by
    rw [wordsFor_eq_ceil]
    unfold sizeRange at small ⊢
    omega
  rcases wordLayout.ckdArray_cases (wordsFor nbits) with ⟨_, overflow⟩ | same
  · exact absurd overflow (Nat.not_le.mpr fits)
  · exact same

theorem ends_initNbits (real : al.isSome = true) (small : nbits < sizeRange)
    {post : Status × Option BitSet -> BitSetMem -> Prop}
    (refused : heap.Spared (post (.errNoMem, none)))
    (done : forall (made : BitSet) (later : BitSetMem),
      Born heap.blocks later.blocks made (Subset.bare nbits) al -> post (.ok, some made) later) :
    Ends (initNbits nbits al) heap post := by
  unfold initNbits
  simp only [ends_bind, ends_require, real, true_and]
  by_cases some_ : wordsFor nbits > 0
  · have layout := wordLayout_ckdArray small
    simp only [if_pos some_, allocN, layout.1, ends_bind]
    apply Owns.ends_alloc real some_
    · intro later same
      exact (ends_pure _ _ _).mpr (refused later same)
    · intro addr later owns evolves
      have zeros : Held later.blocks ⟨some addr, nbits, wordsFor nbits, al⟩ (Subset.bare nbits)
          (List.replicate (wordsFor nbits) 0#64) := by
        refine ⟨⟨real, small, rfl, List.length_replicate, owns⟩, rfl, ?_⟩
        exact (ones_eq_empty (by decide)).mpr fun word member => List.eq_of_mem_replicate member
      have holds : Holds later.blocks ⟨some addr, nbits, wordsFor nbits, al⟩ (Subset.bare nbits) := ⟨_, zeros⟩
      simp only [ends_bind, holds.ends_assertBitSet, ends_pure]
      exact done _ later ⟨holds, evolves, rfl⟩
  · have empty : wordsFor nbits = 0 := Nat.eq_zero_of_not_pos some_
    have nothing := wordsFor_eq_zero.mp empty
    subst nothing
    have holds : Holds heap.blocks ⟨none, 0, 0, al⟩ (Subset.bare 0) := Holds.of_bare real
    simp only [empty, gt_iff_lt, Nat.lt_irrefl, if_false, ends_bind, holds.ends_assertBitSet, ends_pure]
    exact done _ heap ⟨holds, Evolves.refl _ _, rfl⟩

theorem ends_deinit_inert {post : BitSet -> BitSetMem -> Prop} :
    Ends (deinit inert) heap post <-> post inert heap := by
  exact ends_pure inert heap post

theorem ends_deinit (holds : Holds heap.blocks self subset) {post : BitSet -> BitSetMem -> Prop}
    (done : forall later : BitSetMem, Evolves heap.blocks later.blocks self.words.toList [] -> post inert later) :
    Ends (deinit self) heap post := by
  have ⟨words, held⟩ := holds
  have layout := wordLayout_ckdArray held.rep.small
  rw [← held.rep.count] at layout
  simp only [deinit, if_pos held.rep.real, ends_bind, holds.ends_assertBitSet, deallocN, layout.1,
    ends_demand_some]
  apply held.rep.block.ends_dealloc held.rep.real (by decide)
  intro later gone
  exact (ends_pure _ _ _).mpr (done later gone)

theorem ends_copyWith (holds : Holds heap.blocks self subset) (real : al.isSome = true)
    {post : Status × Option BitSet -> BitSetMem -> Prop}
    (refused : heap.Spared (post (.errNoMem, none)))
    (done : forall (made : BitSet) (later : BitSetMem),
      Born heap.blocks later.blocks made subset al -> post (.ok, some made) later) :
    Ends (copyWith self al) heap post := by
  have ⟨words, held⟩ := holds
  simp only [copyWith, ends_bind, holds.ends_assertBitSet, ends_require, real, true_and]
  apply ends_initNbits real held.rep.small
  · intro later same
    exact (ends_pure _ _ _).mpr (refused later same)
  · intro made mid born
    rcases born.holds with ⟨blank, heldMade⟩
    have stays : Rep mid.blocks self words := held.rep.congr fun addr mine =>
      born.evolves.keeps List.not_mem_nil (held.rep.block.live mine)
    have sameCount : made.nwords = self.nwords := by
      rw [heldMade.rep.count, held.rep.count, heldMade.nbits]
      rfl
    simp only [ends_bind]
    apply ends_copyWords heldMade.rep stays sameCount
    · intro addr theirs mine
      exact held.rep.block.live theirs (born.evolves.fresh addr mine List.not_mem_nil)
    · intro later copied evolves
      refine (ends_pure _ _ _).mpr (done made later ⟨⟨words, copied, ?_, held.bits⟩,
        born.evolves.trans evolves, born.al⟩)
      exact heldMade.nbits.trans held.nbits

/-- What a block of other words holds of those there were has the right length. -/
theorem length_cutWords (count : Nat) (words : List Word) : (cutWords count words).length = count := by
  unfold cutWords
  rw [List.length_append, List.length_take, List.length_replicate]
  omega

theorem ends_copyOver (holds : Holds heap.blocks self mySubset) (holdsOther : Holds heap.blocks other subset)
    (apart : forall addr, addr ∈ other.words.toList -> addr ∉ self.words.toList)
    {post : Status × BitSet -> BitSetMem -> Prop}
    (refused : heap.Spared (post (.errNoMem, self)))
    (done : forall (after : BitSet) (later : BitSetMem),
      Tends heap.blocks later.blocks self after subset -> post (.ok, after) later) :
    Ends (copyOver self other) heap post := by
  rcases holds with ⟨mine, held⟩
  rcases holdsOther with ⟨theirs, heldOther⟩
  -- from an equal number of words on, the rest is the same
  have rest : forall (ready : BitSet) (mid : BitSetMem) (content : List Word),
      Rep mid.blocks { ready with nbits := other.nbits } content -> ready.nwords = other.nwords ->
      ready.al = self.al -> Evolves heap.blocks mid.blocks self.words.toList ready.words.toList ->
      Ends (do
        copyWords { ready with nbits := other.nbits } other
        assertBitSet { ready with nbits := other.nbits }
        return (Status.ok, { ready with nbits := other.nbits })) mid post := by
    intro ready mid content rep same al evolves
    have stays : Rep mid.blocks other theirs := heldOther.rep.congr fun addr theirs =>
      evolves.keeps (apart addr theirs) (heldOther.rep.block.live theirs)
    rw [ends_bind]
    apply ends_copyWords rep stays same
    · intro addr theirs mine
      exact heldOther.rep.block.live theirs (evolves.fresh addr mine (apart addr theirs))
    · intro later copied further
      have final : Holds later.blocks { ready with nbits := other.nbits } subset :=
        ⟨theirs, copied, heldOther.nbits, heldOther.bits⟩
      simp only [ends_bind, final.ends_assertBitSet, ends_pure]
      exact done _ later ⟨final, evolves.trans further, al⟩
  have small := heldOther.rep.small
  have count := heldOther.rep.count
  unfold copyOver
  by_cases same : self.nwords = other.nwords
  · have resumed := rest self heap mine ⟨held.rep.real, small, same.trans count, held.rep.length, held.rep.block⟩
      same rfl (Evolves.refl _ _)
    simpa only [if_neg (not_not_intro same), ends_bind, ends_pure] using resumed
  · have layout := wordLayout_ckdArray small
    rw [← count] at layout
    have old : wrapMul self.nwords wordLayout.size = wordLayout.size * self.nwords := by
      have few := held.rep.nwords_small
      rw [Nat.mul_comm wordLayout.size]
      exact wrapMul_eq (show self.nwords * 8 < 2 ^ 64 by omega)
    simp only [ne_eq, same, not_false_eq_true, if_true, ends_bind, reallocN, layout.1, old]
    apply held.rep.block.ends_realloc held.rep.real (by decide)
    · intro some_ later unchanged
      simp only [some_, and_self, if_true, ends_bind, ends_pure]
      exact refused later unchanged
    · intro words mid owns evolves
      have ok : ¬ (other.nwords > 0 ∧ words = none) := by
        rintro ⟨some_, none_⟩
        exact absurd (owns.none_iff.mp none_) (Nat.ne_of_gt some_)
      simp only [ok, if_false, ends_bind, ends_pure]
      have length : (if self.nwords = 0 then List.replicate other.nwords 0#64 else
          cutWords other.nwords mine).length = other.nwords := by
        split
        · exact List.length_replicate
        · exact length_cutWords _ _
      simpa only [ends_bind, ends_pure] using
        rest { self with words := words, nwords := other.nwords } mid _ ⟨held.rep.real, small, count, length, owns⟩
          rfl rfl evolves

/-! ## One bit -/

/-- What `set`, `reset` and `flip` make of the members. -/
theorem ends_set (holds : Holds heap.blocks self subset) (small : idx < self.nbits)
    {post : Unit -> BitSetMem -> Prop}
    (done : forall later : BitSetMem, Tends heap.blocks later.blocks self self (subset.edit (insert idx)) ->
      post () later) :
    Ends (set self idx) heap post := by
  apply ends_onBit holds small oneBit_set _ done
  intro place
  rw [Finset.mem_insert]
  by_cases here : place = idx <;> simp [here]

theorem ends_reset (holds : Holds heap.blocks self subset) (small : idx < self.nbits)
    {post : Unit -> BitSetMem -> Prop}
    (done : forall later : BitSetMem, Tends heap.blocks later.blocks self self
      (subset.edit fun members => members.erase idx) -> post () later) :
    Ends (reset self idx) heap post := by
  apply ends_onBit holds small oneBit_reset _ done
  intro place
  rw [Finset.mem_erase]
  by_cases here : place = idx <;> simp [here]

theorem ends_flip (holds : Holds heap.blocks self subset) (small : idx < self.nbits)
    {post : Unit -> BitSetMem -> Prop}
    (done : forall later : BitSetMem, Tends heap.blocks later.blocks self self
      (subset.edit fun members => symmDiff members {idx}) -> post () later) :
    Ends (flip self idx) heap post := by
  apply ends_onBit holds small oneBit_flip _ done
  intro place
  rw [Finset.mem_symmDiff, Finset.mem_singleton]
  by_cases here : place = idx <;> simp [here]

/-- What `set_to` makes of the members. -/
def settled (idx : Nat) (val : Bool) (members : Finset Nat) : Finset Nat :=
  if val = true then insert idx members else members.erase idx

theorem ends_setTo {val : Bool} (holds : Holds heap.blocks self subset) (small : idx < self.nbits)
    {post : Unit -> BitSetMem -> Prop}
    (done : forall later : BitSetMem, Tends heap.blocks later.blocks self self (subset.edit (settled idx val)) ->
      post () later) :
    Ends (setTo self idx val) heap post := by
  simp only [setTo, ends_bind, holds.ends_assertBitSet, ends_require, small, true_and]
  cases val with
  | true => exact ends_set holds small done
  | false => exact ends_reset holds small done

theorem ends_fromSpan {view : SpanView Nat} (real : al.isSome = true) (small : nbits < sizeRange)
    (elem : view.elem = ⟨8, 8⟩) (inside : forall idx, idx ∈ view.elems -> idx < nbits)
    {post : Status × Option BitSet -> BitSetMem -> Prop}
    (refused : heap.Spared (post (.errNoMem, none)))
    (done : forall (made : BitSet) (later : BitSetMem),
      Born heap.blocks later.blocks made ((Subset.bare nbits).edit fun _ => view.elems.toFinset) al ->
      post (.ok, some made) later) :
    Ends (fromSpan nbits view al) heap post := by
  simp only [fromSpan, ends_bind, ends_require, elem, true_and]
  apply ends_initNbits real small
  · intro later same
    exact (ends_pure _ _ _).mpr (refused later same)
  · intro made mid born
    rw [ends_bind]
    apply ends_countUp (fun i (_ : Unit) (later : BitSetMem) =>
      Born heap.blocks later.blocks made ((Subset.bare nbits).edit fun _ => (view.elems.take i).toFinset) al)
      (Nat.zero_add _)
    · intro i _ now _ turn sofar
      have found : view.elems[i]? = some view.elems[i] := List.getElem?_eq_getElem turn
      have span : made.nbits = nbits := by
        rcases sofar.holds with ⟨_, held⟩
        exact held.nbits
      rw [found, ends_bind, ends_demand_some]
      apply ends_set sofar.holds (span ▸ inside _ (List.getElem_mem turn))
      intro later tends
      have next : ((Subset.bare nbits).edit fun _ => (view.elems.take i).toFinset).edit (insert view.elems[i]) =
          (Subset.bare nbits).edit fun _ => (view.elems.take (i + 1)).toFinset := by
        ext place
        · rfl
        · simp only [Subset.edit, Finset.mem_inter, Finset.mem_insert, List.mem_toFinset,
            List.take_succ_eq_append_getElem turn, List.mem_append, List.mem_singleton]
          tauto
      exact ⟨next ▸ tends.holds, sofar.evolves.trans tends.evolves, born.al⟩
    · intro _ later final
      have whole : view.elems.take view.len = view.elems := List.take_length
      rw [whole] at final
      simp only [ends_bind, final.holds.ends_assertBitSet, ends_pure]
      exact done made later final
    · have blank : ((Subset.bare nbits).edit fun _ => (view.elems.take 0).toFinset) = Subset.bare nbits := by
        ext place
        · rfl
        · simp only [Subset.edit, Subset.bare, List.take_zero, List.toFinset_nil, Finset.empty_inter]
      rw [blank]
      exact born

/-! ## All bits -/

/-- Whatever was written into the words, `clear_tail` leaves members of the universe. -/
theorem ends_cleared (change : Finset Nat -> Finset Nat) (rep : Rep heap.blocks self words)
    (nbits : self.nbits = subset.nbits)
    (bits : forall idx, idx < self.nbits -> bitAt words idx = decide (idx ∈ change subset.members))
    {post : Unit -> BitSetMem -> Prop}
    (done : forall later : BitSetMem, Holds later.blocks self (subset.edit change) ->
      Evolves heap.blocks later.blocks self.words.toList self.words.toList -> post () later) :
    Ends (do clearTail self; assertBitSet self) heap post := by
  rw [ends_bind]
  apply ends_clearTail rep
  intro later cleared now left evolves
  have holds : Holds later.blocks self (subset.edit change) := by
    refine ⟨cleared, Held.of_bits now nbits fun idx => ?_⟩
    rw [left]
    by_cases inside : idx < self.nbits
    · rw [bits idx inside, decide_eq_true inside, Bool.and_true]
      simp only [inside, and_true]
    · simp only [inside, decide_false, Bool.and_false, and_false]
  rw [holds.ends_assertBitSet]
  exact done later holds evolves

theorem ends_setAll (holds : Holds heap.blocks self subset) {post : Unit -> BitSetMem -> Prop}
    (done : forall later : BitSetMem, Tends heap.blocks later.blocks self self
      (subset.edit fun _ => Finset.range subset.nbits) -> post () later) :
    Ends (setAll self) heap post := by
  have ⟨words, held⟩ := holds
  have full : (BitVec.replicate 8 (0xFF : BitVec 8) : Word) = BitVec.allOnes 64 := by decide
  simp only [setAll, ends_bind, holds.ends_assertBitSet]
  apply ends_fillWords held.rep
  intro mid filled evolves
  rw [← ends_bind]
  apply ends_cleared (fun _ => Finset.range subset.nbits) filled held.nbits
  · intro idx inside
    have there : idx / 64 < self.nwords := held.rep.count ▸ wordsFor_lt inside
    rw [bitAt_replicate there, full, BitVec.getLsbD_allOnes, Bool.eq_iff_iff, decide_eq_true_eq, decide_eq_true_eq,
      Finset.mem_range, ← held.nbits]
    simp only [inside, Nat.mod_lt idx (by decide : 0 < 64)]
  · intro later now further
    exact done later ⟨now, evolves.trans further, rfl⟩

theorem ends_resetAll (holds : Holds heap.blocks self subset) {post : Unit -> BitSetMem -> Prop}
    (done : forall later : BitSetMem, Tends heap.blocks later.blocks self self (subset.edit fun _ => ∅) ->
      post () later) :
    Ends (resetAll self) heap post := by
  have ⟨words, held⟩ := holds
  have blank : (BitVec.replicate 8 (0 : BitVec 8) : Word) = 0 := by decide
  simp only [resetAll, ends_bind, holds.ends_assertBitSet]
  apply ends_fillWords held.rep
  intro later filled evolves
  have now : Holds later.blocks self (subset.edit fun _ => ∅) := by
    refine ⟨_, Held.of_bits filled held.nbits fun idx => ?_⟩
    rw [blank]
    simp only [Finset.notMem_empty, false_and, decide_false]
    have zero : ones (List.replicate self.nwords (0 : Word)) = ∅ :=
      (ones_eq_empty (by decide)).mpr fun word member => List.eq_of_mem_replicate member
    rw [← Bool.not_eq_true, ← mem_ones (by decide), zero]
    exact Finset.notMem_empty idx
  rw [now.ends_assertBitSet]
  exact done later ⟨now, evolves, rfl⟩

theorem ends_flipAll (holds : Holds heap.blocks self subset) {post : Unit -> BitSetMem -> Prop}
    (done : forall later : BitSetMem, Tends heap.blocks later.blocks self self
      (subset.edit fun members => Finset.range subset.nbits \ members) -> post () later) :
    Ends (flipAll self) heap post := by
  have ⟨words, held⟩ := holds
  have length : (words.map fun word => ~~~ word).length = words.length := List.length_map _
  simp only [flipAll, ends_bind, holds.ends_assertBitSet]
  apply ends_everyWord held.rep length
  · intro w inside inside' mid post now evolves last
    have whole : w < ((words.map fun word => ~~~ word).take w ++ words.drop w).length := by
      rw [now.length, ← held.rep.length]
      exact inside
    rw [ends_bind, ends_readWord now whole, getElem_turn inside length whole]
    rwa [List.getElem_map] at last
  · intro mid flipped evolves
    rw [← ends_bind]
    apply ends_cleared (fun members => Finset.range subset.nbits \ members) flipped held.nbits
    · intro idx inside
      have there := held.inside inside
      rw [bitAt_of_lt (length.symm ▸ there), List.getElem_map, BitVec.getLsbD_not, ← bitAt_of_lt there, held.bit,
        Bool.eq_iff_iff, decide_eq_true_eq, Finset.mem_sdiff, Finset.mem_range, ← held.nbits]
      simp [inside, Nat.mod_lt idx (by decide : 0 < 64)]
    · intro later now further
      exact done later ⟨now, evolves.trans further, rfl⟩

/-! ## Two sets -/

/-- What an operation on two sets does to a bit. -/
def Combination.bit : Combination -> Bool -> Bool -> Bool
  | union, mine, theirs => mine || theirs
  | intersection, mine, theirs => mine && theirs
  | difference, mine, theirs => mine && !theirs
  | symmetricDifference, mine, theirs => mine != theirs

theorem getLsbD_edit (combination : Combination) (mine theirs : Word) (bit : Nat) (within : bit < 64) :
    (combination.edit mine theirs).getLsbD bit = combination.bit (mine.getLsbD bit) (theirs.getLsbD bit) := by
  cases combination <;> simp [Combination.edit, Combination.bit, within]

theorem mem_on (combination : Combination) (mine theirs : Finset Nat) :
    idx ∈ combination.on mine theirs <->
      combination.bit (decide (idx ∈ mine)) (decide (idx ∈ theirs)) = true := by
  cases combination <;> simp [Combination.on, Combination.bit, Finset.mem_symmDiff]
  tauto

/-- The other set is itself or has its words elsewhere; either way its word is
read before it can have changed. -/
theorem ends_combine {combination : Combination} (held : Held heap.blocks self mySubset mine)
    (heldOther : Held heap.blocks other theirSubset theirs) (same : self.nbits = other.nbits)
    (reads : forall (w : Nat) (inside : w < theirs.length) (mid : BitSetMem) (now : List Word)
      (turn : w < now.length), Rep mid.blocks self now ->
      (forall inside' : w < mine.length, now[w] = mine[w]) ->
      Evolves heap.blocks mid.blocks self.words.toList self.words.toList ->
      forall post : Word -> BitSetMem -> Prop, post theirs[w] mid -> Ends (readWord other w) mid post)
    {post : Unit -> BitSetMem -> Prop}
    (done : forall later : BitSetMem, Tends heap.blocks later.blocks self self
      (mySubset.edit fun members => combination.on members theirSubset.members) -> post () later) :
    Ends (combine self other combination.edit) heap post := by
  have lengths : mine.length = theirs.length := by
    rw [held.rep.length, heldOther.rep.length, held.rep.count, heldOther.rep.count, same]
  have length : (List.zipWith combination.edit mine theirs).length = mine.length := by
    rw [List.length_zipWith, ← lengths, Nat.min_self]
  apply ends_everyWord held.rep length
  · intro w inside inside' mid post now evolves last
    have whole : w < ((List.zipWith combination.edit mine theirs).take w ++ mine.drop w).length := by
      rw [now.length, ← held.rep.length]
      exact inside
    rw [ends_bind]
    apply reads w (lengths ▸ inside) mid _ whole now (fun _ => getElem_turn inside length whole) evolves
    rw [ends_bind, ends_readWord now whole, getElem_turn inside length whole]
    rwa [List.getElem_zipWith] at last
  · intro later now evolves
    refine done later ⟨⟨_, Held.of_bits now held.nbits fun idx => ?_⟩, evolves, rfl⟩
    rw [Bool.eq_iff_iff, decide_eq_true_eq, mem_on, ← held.bit, ← heldOther.bit]
    by_cases inside : idx / 64 < mine.length
    · rw [bitAt_zipWith (by decide) (getLsbD_edit combination) lengths inside]
      refine ⟨fun here => ⟨here, ?_⟩, And.left⟩
      by_contra above
      have none_ : bitAt mine idx = false := by
        rw [held.bit, decide_eq_false]
        exact fun member => above (held.small member)
      have noneThere : bitAt theirs idx = false := by
        rw [heldOther.bit, decide_eq_false]
        exact fun member => above (same ▸ heldOther.small member)
      rw [none_, noneThere] at here
      cases combination <;> cases here
    · rw [bitAt_of_le (length.symm ▸ Nat.le_of_not_lt inside)]
      have above : ¬ idx < self.nbits := fun small => inside (held.inside small)
      simp only [Bool.false_eq_true, above, and_false]

/-- Two bitsets at different blocks, or one bitset taken twice. -/
def Beside (self other : BitSet) : Prop :=
  self = other ∨ forall addr, addr ∈ other.words.toList -> addr ∉ self.words.toList

theorem ends_combine_beside {combination : Combination} (holds : Holds heap.blocks self mySubset)
    (holdsOther : Holds heap.blocks other theirSubset) (same : self.nbits = other.nbits)
    (beside : Beside self other) {post : Unit -> BitSetMem -> Prop}
    (done : forall later : BitSetMem, Tends heap.blocks later.blocks self self
      (mySubset.edit fun members => combination.on members theirSubset.members) -> post () later) :
    Ends (combine self other combination.edit) heap post := by
  rcases holds with ⟨mine, held⟩
  rcases holdsOther with ⟨theirs, heldOther⟩
  apply ends_combine held heldOther same _ done
  intro w inside mid now turn rep unchanged evolves post last
  rcases beside with equal | apart
  · subst equal
    have sameWords : mine = theirs := held.rep.unique heldOther.rep
    subst sameWords
    rw [ends_readWord rep turn, unchanged inside]
    exact last
  · have stays : Rep mid.blocks other theirs := heldOther.rep.congr fun addr theirs =>
      evolves.keeps (apart addr theirs) (heldOther.rep.block.live theirs)
    rwa [ends_readWord stays inside]

/-! ## What is told about the members -/

/-- Adding up the bits of the words counts the members. -/
theorem ends_count (holds : Holds heap.blocks self subset) {post : Nat -> BitSetMem -> Prop}
    (done : post subset.members.card heap) : Ends (count self) heap post := by
  have ⟨words, held⟩ := holds
  have total : (words.map fun word => word.cpop.toNat).sum = subset.members.card := by
    rw [← card_ones (by decide), held.bits]
  have few : subset.members.card < sizeRange := by
    have most := Finset.card_le_card subset.within
    rw [Finset.card_range, ← held.nbits] at most
    exact Nat.lt_of_le_of_lt most held.rep.small
  simp only [count, ends_bind, holds.ends_assertBitSet]
  apply ends_countUp (fun w sum mid => mid = heap ∧ sum = ((words.take w).map fun word => word.cpop.toNat).sum)
    (Nat.zero_add _)
  · rintro w sum mid _ turn ⟨rfl, rfl⟩
    have inside : w < words.length := held.rep.length.symm ▸ turn
    have upTo : ((words.take w).map fun word => word.cpop.toNat).sum + words[w].cpop.toNat =
        ((words.take (w + 1)).map fun word => word.cpop.toNat).sum := by
      rw [List.take_succ_eq_append_getElem inside, List.map_append, List.sum_append, List.map_singleton,
        List.sum_singleton]
    have fits : ((words.take (w + 1)).map fun word => word.cpop.toNat).sum < sizeRange := by
      rw [← List.take_append_drop (w + 1) words, List.map_append, List.sum_append] at total
      omega
    rw [ends_bind, ends_readWord held.rep inside, ends_pure, wrapAdd_eq (by rw [upTo]; exact fits), upTo]
    exact ⟨rfl, rfl⟩
  · rintro sum later ⟨rfl, rfl⟩
    rw [← held.rep.length, List.take_length, total]
    exact done
  · exact ⟨rfl, rfl⟩

theorem ends_any (holds : Holds heap.blocks self subset) :
    Ends (any self) heap fun found later => later = heap ∧ (found = true <-> subset.members.Nonempty) := by
  have ⟨words, held⟩ := holds
  simp only [any, ends_bind, holds.ends_assertBitSet]
  apply ends_differs (fun w => words.getD w 0) (fun _ => 0#64) (fun idx => idx ∈ subset.members)
  · intro w inside post last
    have there : w < words.length := held.rep.length.symm ▸ inside
    rw [ends_bind, ends_readWord held.rep there, ends_pure]
    rwa [List.getD_eq_getElem _ _ there] at last
  · intro w bit _ small
    rw [getLsbD_getD small, held.bit, BitVec.getLsbD_zero, ne_eq, decide_eq_false_iff_not, not_not]
  · intro idx member
    rw [← held.rep.length]
    exact held.inside (held.small member)

theorem ends_all (holds : Holds heap.blocks self subset) :
    Ends (all self) heap fun full later =>
      later = heap ∧ (full = true <-> subset.members = Finset.range subset.nbits) := by
  have ⟨words, held⟩ := holds
  have wanted : forall w bit, w < self.nwords -> bit < 64 ->
      (if w + 1 = self.nwords then tailMask self.nbits else wordOnes).getLsbD bit =
        decide (w * 64 + bit < self.nbits) := by
    intro w bit inside small
    have at_ : (w * 64 + bit) / 64 = w := by omega
    have place : (w * 64 + bit) % 64 = bit := by omega
    by_cases last : w + 1 = self.nwords
    · have live : (tailMask self.nbits).getLsbD ((w * 64 + bit) % 64) = decide (w * 64 + bit < self.nbits) :=
        live_iff (by rw [at_, last, held.rep.count])
      rw [place] at live
      rwa [if_pos last]
    · have early : (w * 64 + bit) / 64 + 1 < wordsFor self.nbits := by
        rw [at_, ← held.rep.count]
        omega
      rw [if_neg last, decide_eq_true (live_of_lt early), wordOnes, BitVec.getLsbD_allOnes, decide_eq_true small]
  simp only [all, ends_bind, holds.ends_assertBitSet]
  refine (ends_differs (fun w => words.getD w 0)
    (fun w => if w + 1 = self.nwords then tailMask self.nbits else wordOnes)
    (fun idx => idx < self.nbits ∧ idx ∉ subset.members) ?_ ?_ ?_).mono ?_
  · intro w inside post last
    have there : w < words.length := held.rep.length.symm ▸ inside
    rw [ends_bind, ends_readWord held.rep there, ends_pure]
    rwa [List.getD_eq_getElem _ _ there] at last
  · intro w bit inside small
    rw [wanted w bit inside small, getLsbD_getD small, held.bit]
    by_cases member : w * 64 + bit ∈ subset.members
    · simp only [member, held.small member, decide_true, ne_eq, not_true_eq_false, and_false]
    · simp only [member, decide_false, ne_eq, false_eq_decide_iff, not_not, not_false_eq_true, and_true]
  · intro idx missing
    rw [← held.rep.length]
    exact held.inside missing.1
  · rintro found later ⟨rfl, found_⟩
    simp only [ends_pure, true_and]
    rw [Bool.not_eq_true', ← Bool.not_eq_true, found_, held.nbits]
    constructor
    · intro none_
      apply Finset.Subset.antisymm subset.within
      intro idx inside
      by_contra missing
      exact none_ ⟨idx, Finset.mem_range.mp inside, missing⟩
    · rintro full ⟨idx, inside, missing⟩
      rw [full] at missing
      exact missing (Finset.mem_range.mpr inside)

theorem ends_none (holds : Holds heap.blocks self subset) :
    Ends (none_ self) heap fun empty later => later = heap ∧ (empty = true <-> subset.members = ∅) := by
  simp only [none_, ends_bind, holds.ends_assertBitSet]
  refine (ends_any holds).mono ?_
  rintro found later ⟨rfl, found_⟩
  simp only [ends_pure, true_and]
  rw [Bool.not_eq_true', ← Bool.not_eq_true, found_, Finset.not_nonempty_iff_eq_empty]

/-! ## What is told about two sets -/

/-- The words of two sets of one universe, read at once. -/
theorem ends_both {passes : Nat -> Run BitSetMem Bool} {edit : Word -> Word -> Word}
    (bit : Bool -> Bool -> Bool) (held : Held heap.blocks self mySubset mine)
    (heldOther : Held heap.blocks other theirSubset theirs) (same : self.nbits = other.nbits)
    (reads : passes = fun w => do
      let mine ← readWord self w
      let theirs ← readWord other w
      return decide (edit mine theirs ≠ 0#64))
    (bits : forall mine theirs place, place < 64 ->
      (edit mine theirs).getLsbD place = bit (mine.getLsbD place) (theirs.getLsbD place))
    (strict : forall there, bit false there = false) :
    Ends (anyWord self.nwords passes) heap fun found later => later = heap ∧ (found = true <->
      exists idx, bit (decide (idx ∈ mySubset.members)) (decide (idx ∈ theirSubset.members)) = true) := by
  have lengths : mine.length = theirs.length := by
    rw [held.rep.length, heldOther.rep.length, held.rep.count, heldOther.rep.count, same]
  apply ends_differs (fun w => edit (mine.getD w 0) (theirs.getD w 0)) (fun _ => 0#64)
  · intro w inside post last
    have here : w < mine.length := held.rep.length.symm ▸ inside
    have there : w < theirs.length := lengths ▸ here
    rw [List.getD_eq_getElem _ _ here, List.getD_eq_getElem _ _ there] at last
    rw [reads, ends_bind, ends_readWord held.rep here, ends_bind, ends_readWord heldOther.rep there,
      ends_pure]
    exact last
  · intro w place _ small
    rw [bits _ _ _ small, getLsbD_getD small, getLsbD_getD small, held.bit, heldOther.bit, BitVec.getLsbD_zero,
      ne_eq, Bool.not_eq_false]
  · intro idx there
    rw [← held.rep.length]
    apply held.inside
    by_contra above
    rw [decide_eq_false fun member => above (held.small member), strict] at there
    cases there

theorem ends_isSubsetImpl (holds : Holds heap.blocks self mySubset)
    (holdsOther : Holds heap.blocks other theirSubset) (same : self.nbits = other.nbits) :
    Ends (isSubsetImpl self other) heap fun answer later =>
      later = heap ∧ (answer = true <-> mySubset.members ⊆ theirSubset.members) := by
  rcases holds with ⟨mine, held⟩
  rcases holdsOther with ⟨theirs, heldOther⟩
  rw [isSubsetImpl, ends_bind]
  refine (ends_both (fun here there => here && !there) held heldOther same rfl ?_ fun _ => rfl).mono ?_
  · intro mine theirs place within
    rw [BitVec.getLsbD_and, BitVec.getLsbD_not, decide_eq_true within, Bool.true_and]
  · rintro stray later ⟨rfl, found⟩
    simp only [ends_pure, true_and]
    rw [Bool.not_eq_true', ← Bool.not_eq_true, found]
    simp only [Bool.and_eq_true, decide_eq_true_eq, Bool.not_eq_true', decide_eq_false_iff_not, not_exists,
      not_and, not_not]
    rfl

theorem ends_intersectsImpl (holds : Holds heap.blocks self mySubset)
    (holdsOther : Holds heap.blocks other theirSubset) (same : self.nbits = other.nbits) :
    Ends (intersectsImpl self other) heap fun answer later =>
      later = heap ∧ (answer = true <-> (mySubset.members ∩ theirSubset.members).Nonempty) := by
  rcases holds with ⟨mine, held⟩
  rcases holdsOther with ⟨theirs, heldOther⟩
  refine (ends_both (fun here there => here && there) held heldOther same rfl ?_ fun _ => rfl).mono ?_
  · intro mine theirs place _
    exact BitVec.getLsbD_and
  · rintro answer later ⟨rfl, found⟩
    refine ⟨rfl, found.trans ?_⟩
    simp only [Bool.and_eq_true, decide_eq_true_eq, Finset.Nonempty, Finset.mem_inter]

theorem ends_eqImpl (holds : Holds heap.blocks self mySubset) (holdsOther : Holds heap.blocks other theirSubset) :
    Ends (eqImpl self other) heap fun answer later =>
      later = heap ∧ (answer = true <-> mySubset = theirSubset) := by
  rcases holds with ⟨mine, held⟩
  rcases holdsOther with ⟨theirs, heldOther⟩
  unfold eqImpl
  by_cases same : self.nbits = other.nbits
  · have counts : self.nwords = other.nwords := by
      rw [held.rep.count, heldOther.rep.count, same]
    have sameWords : mine = theirs <-> mySubset = theirSubset := by
      constructor
      · rintro rfl
        apply Subset.ext
        · rw [← held.nbits, ← heldOther.nbits, same]
        · rw [← held.bits, ← heldOther.bits]
      · rintro rfl
        apply eq_of_bitAt (by rw [held.rep.length, heldOther.rep.length, counts])
        intro idx
        rw [held.bit, heldOther.bit]
    by_cases empty : self.nwords = 0
    · simp only [ne_eq, same, not_true_eq_false, if_false, empty, if_true, ends_pure, true_and, true_iff]
      rw [← sameWords, List.eq_nil_of_length_eq_zero (held.rep.length.trans empty),
        List.eq_nil_of_length_eq_zero (heldOther.rep.length.trans (counts.symm.trans empty))]
    · have some_ := Nat.pos_of_ne_zero empty
      rcases held.rep.block.block_at some_ with ⟨addr, at_, block⟩
      rcases heldOther.rep.block.block_at (counts ▸ some_) with ⟨there, atOther, blockOther⟩
      have whole : mine.take self.nwords = mine := List.take_of_length_le (Nat.le_of_eq held.rep.length)
      have wholeOther : theirs.take self.nwords = theirs :=
        List.take_of_length_le (Nat.le_of_eq (heldOther.rep.length.trans counts.symm))
      simp only [ne_eq, same, not_true_eq_false, if_false, if_neg empty, readWords, at_, atOther, ends_bind,
        ends_demand_some, Heap.ends_read block, Heap.ends_read blockOther, ends_require,
        Nat.le_of_eq held.rep.length.symm, Nat.le_of_eq (heldOther.rep.length.trans counts.symm).symm, true_and,
        ends_pure, whole, wholeOther, decide_eq_true_eq]
      exact sameWords
  · simp only [ne_eq, same, not_false_eq_true, if_true, ends_pure, Bool.false_eq_true, true_and, false_iff]
    rintro rfl
    exact same (held.nbits.trans heldOther.nbits.symm)

end BitSet
end TerseDsa
