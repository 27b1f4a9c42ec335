import TerseDsa.BitSet.Objects
import Mathlib.Data.Finset.Sort

namespace TerseDsa

open Foundation Run Objects

/-!
# Scans of a bitset

The nearest index in the set, or out of it, at or above a place, and at or
below one.  A scan masks the first word it looks at and goes on word by word;
for the indices out of the set every word is complemented, the last one with
its tail, which the scan upwards tells apart by the bound.
-/

namespace BitSet

variable {heap : BitSetMem} {self : BitSet} {words : List Word} {subset : Subset} {clear : Bool} {word : Word}
  {w place out : Nat} {C S : Type}

/-! ## The code -/

/-- `word_from`. -/
def wordFrom (word : Word) (place : Nat) : Word := word &&& (wordOnes <<< (place % wordBits))

/-- `word_upto`. -/
def wordUpto (word : Word) (upto : Nat) : Word := word &&& (wordOnes >>> (wordBits - 1 - upto % wordBits))

/-- `idx_of_first_one`; `tda_bit_ctz` asserts that there is one. -/
def idxOfFirstOne (w : Nat) (word : Word) : Run S Nat := do
  require (word ≠ 0#64)
  return wrapAdd (wrapMul w wordBits) word.ctz.toNat

/-- `idx_of_last_one`; `tda_bit_clz` asserts that there is one. -/
def idxOfLastOne (w : Nat) (word : Word) : Run S Nat := do
  require (word ≠ 0#64)
  return wrapAdd (wrapMul w wordBits) (wordBits - 1 - word.clz.toNat)

/-- `word_as_seen`. -/
def wordAsSeen (self : BitSet) (w : Nat) (clear : Bool) : Run BitSetMem Word := do
  let word ← readWord self w
  return word ^^^ (if clear then wordOnes else 0#64)

/-- `find_next_impl`: the answer, and what `*out_idx` is afterwards. -/
def findNextImpl (self : BitSet) (clear : Bool) (place out : Nat) : Run BitSetMem (Bool × Nat) := do
  if place ≥ self.nbits then
    return (false, out)
  let word ← wordAsSeen self (place / wordBits) clear
  loop (fun (vars : Nat × Word) => do
      if vars.2 ≠ 0#64 then
        -- with the tail kept clear, only a complement can find a one past nbits
        let idx ← idxOfFirstOne vars.1 vars.2
        if idx ≥ self.nbits then
          return .leave (false, out)
        return .leave (true, idx)
      let w := vars.1 + 1
      if w = self.nwords then
        return .leave (false, out)
      return .again (w, ← wordAsSeen self w clear))
    (self.nwords + 1) (place / wordBits, wordFrom word place)

/-- `find_prev_impl`: the answer, and what `*out_idx` is afterwards. -/
def findPrevImpl (self : BitSet) (clear : Bool) (place out : Nat) : Run BitSetMem (Bool × Nat) := do
  if self.nbits = 0 then
    return (false, out)
  let place := if place ≥ self.nbits then self.nbits - 1 else place
  let word ← wordAsSeen self (place / wordBits) clear
  loop (fun (vars : Nat × Word) => do
      if vars.2 ≠ 0#64 then
        return .leave (true, ← idxOfLastOne vars.1 vars.2)
      if vars.1 = 0 then
        return .leave (false, out)
      let w := vars.1 - 1
      return .again (w, ← wordAsSeen self w clear))
    (self.nwords + 1) (place / wordBits, wordUpto word place)

/-- `tda_bitset_find_next`. -/
def findNext (self : BitSet) (place out : Nat) : Run BitSetMem (Bool × Nat) := do
  assertBitSet self
  findNextImpl self false place out

/-- `tda_bitset_find_next_clear`. -/
def findNextClear (self : BitSet) (place out : Nat) : Run BitSetMem (Bool × Nat) := do
  assertBitSet self
  findNextImpl self true place out

/-- `tda_bitset_find_prev`. -/
def findPrev (self : BitSet) (place out : Nat) : Run BitSetMem (Bool × Nat) := do
  assertBitSet self
  findPrevImpl self false place out

/-- `tda_bitset_find_prev_clear`. -/
def findPrevClear (self : BitSet) (place out : Nat) : Run BitSetMem (Bool × Nat) := do
  assertBitSet self
  findPrevImpl self true place out

/-- `TDA_BITSET_FOR_EACH`, around a body with variables of its own. -/
def forEach (self : BitSet) (body : Nat -> C -> Run BitSetMem C) (ctx : C) : Run BitSetMem C :=
  loop (fun (vars : Nat × Nat × C) => do
      let (found, idx) ← findNext self vars.2.1 vars.1
      if found then
        let ctx ← body idx vars.2.2
        return .again (idx, wrapAdd idx 1, ctx)
      return .leave vars.2.2)
    (self.nbits + 1) (0, 0, ctx)

/-! ## What a word shows -/

/-- The indices that a scan looks for: the members, or the others of the universe. -/
def shown (subset : Subset) (clear : Bool) : Finset Nat :=
  if clear then Finset.range subset.nbits \ subset.members else subset.members

/-- A bit as the scan sees it. -/
def seenAt (words : List Word) (clear : Bool) (idx : Nat) : Bool := bitAt words idx ^^ clear

theorem Held.mem_shown (held : Held heap.blocks self subset words) {idx : Nat} :
    idx ∈ shown subset clear <-> idx < self.nbits ∧ seenAt words clear idx = true := by
  have small : idx ∈ subset.members -> idx < subset.nbits := fun member => held.nbits ▸ held.small member
  rw [held.nbits, seenAt, held.bit]
  cases clear with
  | true => simp [shown]
  | false =>
      simp only [shown, Bool.false_eq_true, if_false, Bool.xor_false, decide_eq_true_eq]
      exact ⟨fun member => ⟨small member, member⟩, And.right⟩

/-- A word in the midst of a scan: its bits as they are seen, as far as they count. -/
def Masked (words : List Word) (clear : Bool) (counts : Nat -> Prop) (w : Nat) (word : Word) : Prop :=
  forall bit, bit < 64 ->
    (word.getLsbD bit = true <-> seenAt words clear (w * 64 + bit) = true ∧ counts (w * 64 + bit))

theorem ends_wordAsSeen (rep : Rep heap.blocks self words) (inside : w < words.length)
    {post : Word -> BitSetMem -> Prop}
    (done : forall word : Word, Masked words clear (fun _ => True) w word -> post word heap) :
    Ends (wordAsSeen self w clear) heap post := by
  simp only [wordAsSeen, ends_bind, ends_readWord rep inside, ends_pure]
  apply done
  intro bit within
  rw [BitVec.getLsbD_xor, seenAt, bitAt_word inside within, and_true]
  cases clear with
  | true => rw [if_pos rfl, wordOnes, BitVec.getLsbD_allOnes, decide_eq_true within]
  | false => rw [if_neg Bool.false_ne_true, BitVec.getLsbD_zero]

/-- The first word counts from the place on. -/
theorem Masked.wordFrom (masked : Masked words clear (fun _ => True) (place / 64) word) :
    Masked words clear (fun idx => place ≤ idx) (place / 64) (wordFrom word place) := by
  intro bit within
  have above : (wordOnes <<< (place % wordBits)).getLsbD bit = decide (place ≤ place / 64 * 64 + bit) := by
    rw [wordOnes, wordBits, BitVec.getLsbD_shiftLeft, BitVec.getLsbD_allOnes, Bool.eq_iff_iff]
    simp only [Bool.and_eq_true, Bool.not_eq_true', decide_eq_true_eq, decide_eq_false_iff_not]
    omega
  rw [BitSet.wordFrom, BitVec.getLsbD_and, above, Bool.and_eq_true, decide_eq_true_eq, masked bit within, and_true]

/-- The first word of a scan downwards counts up to the place. -/
theorem Masked.wordUpto (masked : Masked words clear (fun _ => True) (place / 64) word) :
    Masked words clear (fun idx => idx ≤ place) (place / 64) (wordUpto word place) := by
  intro bit within
  have below : (wordOnes >>> (wordBits - 1 - place % wordBits)).getLsbD bit =
      decide (place / 64 * 64 + bit ≤ place) := by
    rw [wordOnes, wordBits, BitVec.getLsbD_ushiftRight, BitVec.getLsbD_allOnes, Bool.eq_iff_iff]
    simp only [decide_eq_true_eq]
    omega
  rw [BitSet.wordUpto, BitVec.getLsbD_and, below, Bool.and_eq_true, decide_eq_true_eq, masked bit within, and_true]

theorem Masked.mono {counts other : Nat -> Prop} (masked : Masked words clear counts w word)
    (same : forall idx, idx / 64 = w -> (counts idx <-> other idx)) : Masked words clear other w word := by
  intro bit within
  rw [masked bit within, same _ (by omega)]

theorem Masked.nothing {counts : Nat -> Prop} (masked : Masked words clear counts w word) (zero : word = 0#64)
    {idx : Nat} (here : idx / 64 = w) (counted : counts idx) : seenAt words clear idx = false := by
  have at_ : w * 64 + idx % 64 = idx := by omega
  have bits := masked (idx % 64) (Nat.mod_lt _ (by decide))
  rw [at_, zero, BitVec.getLsbD_zero] at bits
  exact Bool.eq_false_iff.mpr fun seen => Bool.false_ne_true (bits.mpr ⟨seen, counted⟩)

/-- No index of a word is past the largest size. -/
theorem Rep.idx_small (rep : Rep heap.blocks self words) (inside : w < words.length) {bit : Nat}
    (within : bit < 64) :
    w * 64 + bit < sizeRange := by
  have few := rep.nwords_small
  rw [← rep.length] at few
  unfold sizeRange
  omega

theorem ends_idxOfFirstOne (rep : Rep heap.blocks self words) (inside : w < words.length) (some_ : word ≠ 0#64)
    {post : Nat -> BitSetMem -> Prop} :
    Ends (idxOfFirstOne w word) heap post <-> post (w * 64 + word.ctz.toNat) heap := by
  have small := rep.idx_small inside (BitVec.lt_of_getLsbD (isLeast_ctz some_).1)
  simp only [idxOfFirstOne, ends_bind, ends_require, some_, ne_eq, not_false_eq_true, true_and,
    ends_pure]
  rw [wordBits, wrapMul_eq (Nat.lt_of_le_of_lt (Nat.le_add_right _ _) small), wrapAdd_eq small]

theorem ends_idxOfLastOne (rep : Rep heap.blocks self words) (inside : w < words.length) (some_ : word ≠ 0#64)
    {post : Nat -> BitSetMem -> Prop} :
    Ends (idxOfLastOne w word) heap post <-> post (w * 64 + (63 - word.clz.toNat)) heap := by
  have small := rep.idx_small inside (BitVec.lt_of_getLsbD (isGreatest_clz some_).1)
  simp only [idxOfLastOne, ends_bind, ends_require, some_, ne_eq, not_false_eq_true, true_and,
    ends_pure]
  rw [wordBits, wrapMul_eq (Nat.lt_of_le_of_lt (Nat.le_add_right _ _) small), wrapAdd_eq small]

/-! ## The nearest index -/

/-- What a search tells: that the best index was found, or that there is none and nothing was
written. -/
def Finds (Best : Set Nat -> Nat -> Prop) (found : Set Nat) (out : Nat) (result : Bool × Nat) : Prop :=
  (result.1 = true ∧ Best found result.2) ∨ (result = (false, out) ∧ found = ∅)

/-- A scan upwards is about to look at a word. -/
structure Rising (words : List Word) (clear : Bool) (place w : Nat) (word : Word) : Prop where
  inside : w < words.length
  reached : place < (w + 1) * 64
  masked : Masked words clear (fun idx => place ≤ idx) w word
  before : forall idx, place ≤ idx -> idx < w * 64 -> seenAt words clear idx = false

/-- A scan downwards is about to look at a word. -/
structure Falling (words : List Word) (clear : Bool) (place w : Nat) (word : Word) : Prop where
  inside : w < words.length
  reached : w * 64 ≤ place
  masked : Masked words clear (fun idx => idx ≤ place) w word
  behind : forall idx, idx ≤ place -> (w + 1) * 64 ≤ idx -> seenAt words clear idx = false

/-- The first one of the word is the first index that the scan can find. -/
theorem Rising.least (rising : Rising words clear place w word) (some_ : word ≠ 0#64) :
    IsLeast {idx | seenAt words clear idx = true ∧ place ≤ idx} (w * 64 + word.ctz.toNat) := by
  have first := isLeast_ctz some_
  refine ⟨(rising.masked _ (BitVec.lt_of_getLsbD first.1)).mp first.1, ?_⟩
  rintro idx ⟨seen, above⟩
  by_contra early
  by_cases here : w * 64 ≤ idx
  · have at_ : w * 64 + (idx - w * 64) = idx := Nat.add_sub_cancel' here
    have within : idx - w * 64 < 64 := by
      have small := BitVec.lt_of_getLsbD first.1
      omega
    have set_ := (rising.masked _ within).mpr (by rw [at_]; exact ⟨seen, above⟩)
    have least := first.2 set_
    omega
  · rw [rising.before idx above (Nat.lt_of_not_le here)] at seen
    cases seen

/-- The last one of the word is the last index that the scan can find. -/
theorem Falling.greatest (falling : Falling words clear place w word) (some_ : word ≠ 0#64) :
    IsGreatest {idx | seenAt words clear idx = true ∧ idx ≤ place} (w * 64 + (63 - word.clz.toNat)) := by
  have last := isGreatest_clz some_
  refine ⟨(falling.masked _ (BitVec.lt_of_getLsbD last.1)).mp last.1, ?_⟩
  rintro idx ⟨seen, below⟩
  by_contra late
  by_cases here : idx < (w + 1) * 64
  · have at_ : w * 64 + (idx - w * 64) = idx := by omega
    have set_ := (falling.masked (idx - w * 64) (by omega)).mpr (by rw [at_]; exact ⟨seen, below⟩)
    have greatest := last.2 set_
    omega
  · rw [falling.behind idx below (Nat.le_of_not_lt here)] at seen
    cases seen

theorem ends_findNextImpl (holds : Holds heap.blocks self subset) :
    Ends (findNextImpl self clear place out) heap fun result later => later = heap ∧
      Finds IsLeast {idx | idx ∈ shown subset clear ∧ place ≤ idx} out result := by
  rcases holds with ⟨words, held⟩
  have length := held.rep.length
  unfold findNextImpl
  by_cases outside : place ≥ self.nbits
  · rw [if_pos outside, ends_pure]
    refine ⟨rfl, Or.inr ⟨rfl, Set.eq_empty_of_forall_notMem ?_⟩⟩
    rintro idx ⟨member, above⟩
    exact absurd (held.mem_shown.mp member).1 (Nat.not_lt.mpr (outside.trans above))
  · have inside : place / 64 < words.length := held.inside (Nat.lt_of_not_le outside)
    rw [if_neg outside, ends_bind]
    apply ends_wordAsSeen held.rep inside
    intro first masked
    have start : Rising words clear place (place / 64) (wordFrom first place) :=
      ⟨inside, by omega, masked.wordFrom, fun idx above below => absurd below (by omega)⟩
    refine ends_loop (fun left (vars : Nat × Word) mid => mid = heap ∧ vars.1 + left + 1 = words.length ∧
      Rising words clear place vars.1 vars.2) ?_ (n := words.length - 1 - place / 64)
      ⟨rfl, by dsimp only [wordBits]; omega, start⟩ (by omega)
    rintro left ⟨w, word⟩ mid ⟨rfl, total, rising⟩
    dsimp only at total rising ⊢
    by_cases some_ : word ≠ 0#64
    · have least := rising.least some_
      rw [if_pos some_, ends_bind, ends_idxOfFirstOne held.rep rising.inside some_, ends_ite]
      simp only [ends_pure, true_and]
      constructor
      · intro past
        refine Or.inr ⟨rfl, Set.eq_empty_of_forall_notMem ?_⟩
        rintro idx ⟨member, above⟩
        have shown_ := held.mem_shown.mp member
        have later := least.2 ⟨shown_.2, above⟩
        omega
      · intro within
        refine Or.inl ⟨rfl, ⟨held.mem_shown.mpr ⟨Nat.lt_of_not_le within, least.1.1⟩, least.1.2⟩, ?_⟩
        rintro idx ⟨member, above⟩
        exact least.2 ⟨(held.mem_shown.mp member).2, above⟩
    · have zero : word = 0#64 := not_not.mp some_
      have nothing : forall idx, place ≤ idx -> idx < (w + 1) * 64 -> seenAt words clear idx = false := by
        intro idx above below
        by_cases early : idx < w * 64
        · exact rising.before idx above early
        · exact rising.masked.nothing zero (by omega) above
      rw [if_neg some_, ends_ite]
      constructor
      · intro last
        rw [ends_pure]
        refine ⟨rfl, Or.inr ⟨rfl, Set.eq_empty_of_forall_notMem ?_⟩⟩
        rintro idx ⟨member, above⟩
        have shown_ := held.mem_shown.mp member
        have there := held.inside shown_.1
        rw [nothing idx above (by omega)] at shown_
        exact Bool.false_ne_true shown_.2
      · intro more
        have next : w + 1 < words.length := by
          have within := rising.inside
          omega
        rw [ends_bind]
        apply ends_wordAsSeen held.rep next
        intro word masked
        rw [ends_pure]
        have reached := rising.reached
        refine ⟨left - 1, by omega, rfl, by dsimp only; omega, next, by omega, masked.mono ?_, nothing⟩
        exact fun idx here => ⟨fun _ => by omega, fun _ => trivial⟩

theorem ends_findPrevImpl (holds : Holds heap.blocks self subset) :
    Ends (findPrevImpl self clear place out) heap fun result later => later = heap ∧
      Finds IsGreatest {idx | idx ∈ shown subset clear ∧ idx ≤ place} out result := by
  rcases holds with ⟨words, held⟩
  have length := held.rep.length
  unfold findPrevImpl
  by_cases none_ : self.nbits = 0
  · rw [if_pos none_, ends_pure]
    refine ⟨rfl, Or.inr ⟨rfl, Set.eq_empty_of_forall_notMem ?_⟩⟩
    rintro idx ⟨member, _⟩
    have below := (held.mem_shown.mp member).1
    omega
  · rw [if_neg none_]
    dsimp only
    generalize atIs : (if place ≥ self.nbits then self.nbits - 1 else place) = at_
    have within : at_ < self.nbits ∧ at_ ≤ place ∧ forall idx, idx < self.nbits -> idx ≤ place -> idx ≤ at_ := by
      rw [← atIs]
      split
      · exact ⟨by omega, by omega, fun idx _ _ => by omega⟩
      · exact ⟨by omega, Nat.le_refl _, fun idx _ below => below⟩
    rcases within with ⟨small, notAbove, nearest⟩
    have inside : at_ / 64 < words.length := held.inside small
    rw [ends_bind]
    apply ends_wordAsSeen held.rep inside
    intro first masked
    have start : Falling words clear at_ (at_ / 64) (wordUpto first at_) :=
      ⟨inside, by omega, masked.wordUpto, fun idx below behind => absurd below (by omega)⟩
    refine ends_loop (fun left (vars : Nat × Word) mid => mid = heap ∧ vars.1 = left ∧
      Falling words clear at_ vars.1 vars.2) ?_ (n := at_ / 64) ⟨rfl, rfl, start⟩ (by omega)
    rintro left ⟨w, word⟩ mid ⟨rfl, rfl, falling⟩
    dsimp only at falling ⊢
    by_cases some_ : word ≠ 0#64
    · have greatest := falling.greatest some_
      rw [if_pos some_, ends_bind, ends_idxOfLastOne held.rep falling.inside some_, ends_pure]
      have upTo := greatest.1.2
      refine ⟨rfl, Or.inl ⟨rfl, ⟨held.mem_shown.mpr ⟨by omega, greatest.1.1⟩, upTo.trans notAbove⟩, ?_⟩⟩
      rintro idx ⟨member, below⟩
      have shown_ := held.mem_shown.mp member
      exact greatest.2 ⟨shown_.2, nearest idx shown_.1 below⟩
    · have zero : word = 0#64 := not_not.mp some_
      have nothing : forall idx, idx ≤ at_ -> w * 64 ≤ idx -> seenAt words clear idx = false := by
        intro idx below above
        by_cases late : (w + 1) * 64 ≤ idx
        · exact falling.behind idx below late
        · exact falling.masked.nothing zero (by omega) below
      rw [if_neg some_, ends_ite]
      constructor
      · rintro rfl
        rw [ends_pure]
        refine ⟨rfl, Or.inr ⟨rfl, Set.eq_empty_of_forall_notMem ?_⟩⟩
        rintro idx ⟨member, below⟩
        have shown_ := held.mem_shown.mp member
        rw [nothing idx (nearest idx shown_.1 below) (by omega)] at shown_
        exact Bool.false_ne_true shown_.2
      · intro more
        have before : w - 1 < words.length := Nat.lt_of_le_of_lt (Nat.sub_le _ _) falling.inside
        rw [ends_bind]
        apply ends_wordAsSeen held.rep before
        intro word masked
        rw [ends_pure]
        have reached := falling.reached
        refine ⟨w - 1, by omega, rfl, rfl, before, by omega, masked.mono ?_,
          fun idx below behind => nothing idx below (by omega)⟩
        exact fun idx here => ⟨fun _ => by omega, fun _ => trivial⟩

theorem ends_findNext (holds : Holds heap.blocks self subset) :
    Ends (findNext self place out) heap fun result later => later = heap ∧
      Finds IsLeast {idx | idx ∈ subset.members ∧ place ≤ idx} out result := by
  rw [findNext, ends_bind, holds.ends_assertBitSet]
  exact ends_findNextImpl holds

/-! ## The walk -/

/-- The walk goes on from a place: what was visited is below it, what is to come is not. -/
structure Walking (subset now : Subset) (visited rest : List Nat) (place : Nat) : Prop where
  split : subset.members.sort (· ≤ ·) = visited ++ rest
  below : forall idx, idx ∈ visited -> idx < place
  above : forall idx, idx ∈ rest -> place ≤ idx
  same : forall idx, place ≤ idx -> (idx ∈ now.members <-> idx ∈ subset.members)

namespace Walking

variable {now : Subset} {visited rest : List Nat} {idx : Nat}

theorem mem_rest (walking : Walking subset now visited rest place) :
    idx ∈ rest <-> idx ∈ now.members ∧ place ≤ idx := by
  have member : idx ∈ subset.members <-> idx ∈ visited ∨ idx ∈ rest := by
    rw [← Finset.mem_sort (· ≤ ·), walking.split, List.mem_append]
  constructor
  · intro inside
    have above := walking.above idx inside
    exact ⟨(walking.same idx above).mpr (member.mpr (Or.inr inside)), above⟩
  · rintro ⟨inside, above⟩
    refine (member.mp ((walking.same idx above).mp inside)).resolve_left fun early => ?_
    exact Nat.not_lt.mpr above (walking.below idx early)

/-- The least index to come is the next one. -/
theorem next (walking : Walking subset now visited rest place)
    (least : IsLeast {idx | idx ∈ now.members ∧ place ≤ idx} idx) :
    exists after, rest = idx :: after ∧ forall later, later ∈ after -> idx + 1 ≤ later := by
  have ascending : (visited ++ rest).Pairwise (· < ·) := by
    rw [← walking.split]
    exact (Finset.sortedLT_sort subset.members).pairwise
  have inside := walking.mem_rest.mpr least.1
  cases rest with
  | nil => exact absurd inside List.not_mem_nil
  | cons first after =>
      have behind := (List.pairwise_cons.mp (List.pairwise_append.mp ascending).2.1).1
      have early : idx ≤ first := least.2 (walking.mem_rest.mp List.mem_cons_self)
      rcases List.mem_cons.mp inside with rfl | later
      · exact ⟨after, rfl, behind⟩
      · exact absurd (behind idx later) (Nat.not_lt.mpr early)

end Walking

/-- The walk visits every member, in ascending order, as long as its body leaves the indices that are
to come. -/
theorem ends_forEach {body : Nat -> C -> Run BitSetMem C} {ctx : C} (inv : List Nat -> Subset -> C -> Prop)
    (step : forall (visited : List Nat) (idx : Nat) (now : Subset) (ctx : C) (mid : BitSetMem),
      Holds mid.blocks self now -> idx ∈ now.members -> inv visited now ctx ->
      Ends (body idx ctx) mid fun ctx later => exists after, Holds later.blocks self after ∧
        inv (visited ++ [idx]) after ctx ∧
        forall other, idx < other -> (other ∈ after.members <-> other ∈ now.members))
    (holds : Holds heap.blocks self subset) (start : inv [] subset ctx) {post : C -> BitSetMem -> Prop}
    (done : forall now ctx later, Holds later.blocks self now -> inv (subset.members.sort (· ≤ ·)) now ctx ->
      post ctx later) :
    Ends (forEach self body ctx) heap post := by
  have ⟨words, held⟩ := holds
  unfold forEach
  refine ends_loop (fun left (vars : Nat × Nat × C) mid => left + vars.2.1 = self.nbits ∧
    exists visited rest now, Holds mid.blocks self now ∧ Walking subset now visited rest vars.2.1 ∧
      inv visited now vars.2.2) ?_ (n := self.nbits) ?_ (Nat.lt_succ_self _)
  · rintro left ⟨last, place, ctx⟩ mid ⟨total, visited, rest, now, holdsNow, walking, kept⟩
    dsimp only at total walking kept ⊢
    rw [ends_bind]
    apply (ends_findNext holdsNow).mono
    rintro ⟨found, idx⟩ _ ⟨rfl, answer⟩
    rcases answer with ⟨yes, least⟩ | ⟨no, none_⟩
    · dsimp only at yes least
      subst yes
      rcases walking.next least with ⟨after, rfl, behind⟩
      have member : idx ∈ now.members := least.1.1
      have reached : place ≤ idx := least.1.2
      have small : idx < self.nbits := by
        rcases holdsNow with ⟨_, heldNow⟩
        exact heldNow.small member
      have exact_ : wrapAdd idx 1 = idx + 1 := wrapAdd_eq (Nat.lt_of_le_of_lt small held.rep.small)
      simp only [if_true, ends_bind]
      apply (step visited idx now ctx _ holdsNow member kept).mono
      rintro ctx later ⟨changed, holdsLater, keeps, same⟩
      rw [ends_pure]
      refine ⟨self.nbits - (idx + 1), by omega, by dsimp only; omega, visited ++ [idx], after, changed, holdsLater,
        ⟨?_, ?_, ?_, ?_⟩, keeps⟩
      · rw [walking.split, List.append_assoc]
        rfl
      · intro other inside
        dsimp only
        rw [exact_]
        rcases List.mem_append.mp inside with early | here
        · exact Nat.lt_succ_of_lt (Nat.lt_of_lt_of_le (walking.below other early) reached)
        · rw [List.mem_singleton.mp here]
          exact Nat.lt_succ_self idx
      · intro other inside
        dsimp only
        rw [exact_]
        exact behind other inside
      · intro other above
        dsimp only at above
        rw [exact_] at above
        rw [same other above, walking.same other (reached.trans (Nat.le_of_succ_le above))]
    · cases no
      have ended : rest = [] := by
        apply List.eq_nil_iff_forall_not_mem.mpr
        intro idx inside
        exact Set.notMem_empty idx (none_ ▸ walking.mem_rest.mp inside)
      have split := walking.split
      rw [ended, List.append_nil] at split
      simp only [Bool.false_eq_true, if_false, ends_pure]
      exact done now ctx _ holdsNow (split ▸ kept)
  · refine ⟨rfl, [], subset.members.sort (· ≤ ·), subset, holds, ⟨rfl, ?_, ?_, fun _ _ => Iff.rfl⟩, start⟩
    · exact fun idx inside => absurd inside List.not_mem_nil
    · exact fun idx _ => Nat.zero_le idx

/-- A body that notes the index it is at, and may take it out of the set. -/
def noting (self : BitSet) (clears : Nat -> Bool) (idx : Nat) (visited : List Nat) : Run BitSetMem (List Nat) := do
  if clears idx then
    reset self idx
  return visited ++ [idx]

theorem ends_forEach_noting (holds : Holds heap.blocks self subset) (clears : Nat -> Bool) :
    Ends (forEach self (noting self clears) []) heap fun visited later =>
      visited = subset.members.sort (· ≤ ·) ∧
        Holds later.blocks self (subset.edit fun members => members.filter fun idx => clears idx = false) := by
  refine ends_forEach (fun visited now noted => noted = visited ∧ now.nbits = subset.nbits ∧
    forall idx, idx ∈ now.members <-> idx ∈ subset.members ∧ (idx ∈ visited -> clears idx = false)) ?_ holds ?_ ?_
  · rintro visited idx now noted mid holdsNow member ⟨same, nbits, kept⟩
    subst same
    have more : forall other, (other ∈ noted ++ [idx] -> clears other = false) <->
        (other ∈ noted -> clears other = false) ∧ (other = idx -> clears other = false) := by
      intro other
      rw [List.mem_append, List.mem_singleton, or_imp]
    rw [noting, ends_ite]
    constructor
    · intro takes
      have small : idx < self.nbits := by
        rcases holdsNow with ⟨_, heldNow⟩
        exact heldNow.small member
      rw [ends_bind]
      apply ends_reset holdsNow small
      intro later tends
      have members : forall other, other ∈ (now.edit fun members => members.erase idx).members <->
          other ≠ idx ∧ other ∈ now.members := by
        intro other
        rw [Subset.edit, Finset.mem_inter, Finset.mem_erase, and_iff_left_of_imp]
        exact fun inside => now.within inside.2
      rw [ends_pure]
      refine ⟨_, tends.holds, ⟨rfl, nbits, fun other => ?_⟩, fun other above => ?_⟩
      · rw [members, more, kept]
        constructor
        · rintro ⟨different, inside, gone⟩
          exact ⟨inside, gone, fun here => absurd here different⟩
        · rintro ⟨inside, gone, here⟩
          refine ⟨?_, inside, gone⟩
          rintro rfl
          rw [here rfl] at takes
          cases takes
      · rw [members]
        exact and_iff_right (Nat.ne_of_gt above)
    · intro leaves
      rw [ends_pure]
      refine ⟨now, holdsNow, ⟨rfl, nbits, fun other => ?_⟩, fun _ _ => Iff.rfl⟩
      rw [more, kept]
      refine and_congr_right fun _ => (and_iff_left ?_).symm
      rintro rfl
      exact Bool.eq_false_iff.mpr leaves
  · exact ⟨rfl, rfl, fun idx => (and_iff_left fun inside => absurd inside List.not_mem_nil).symm⟩
  · rintro now noted later holdsNow ⟨rfl, nbits, kept⟩
    refine ⟨rfl, ?_⟩
    have same : now = subset.edit fun members => members.filter fun idx => clears idx = false := by
      refine Subset.ext nbits (Finset.ext fun idx => ?_)
      rw [kept, Finset.mem_sort, Subset.edit, Finset.mem_inter, Finset.mem_filter]
      constructor
      · rintro ⟨inside, gone⟩
        exact ⟨⟨inside, gone inside⟩, subset.within inside⟩
      · rintro ⟨⟨inside, gone⟩, _⟩
        exact ⟨inside, fun _ => gone⟩
    exact same ▸ holdsNow

/-! ## Every scan -/

/-- How a bitset is scanned: each search finds the nearest index of its kind and writes it, or says
that there is none and writes nothing; the indices of all bits of the words are sizes; the walk comes
by every member, in ascending order and once, whichever of them its body takes out; and looking for a
member is looking for what is missing from the complement. -/
structure Scanned (heap : BitSetMem) (set : BitSet) (subset : Subset) : Prop where
  next : forall place out, Ends (findNext set place out) heap fun result later => later = heap ∧
    Finds IsLeast {idx | idx ∈ subset.members ∧ place ≤ idx} out result
  nextClear : forall place out, Ends (findNextClear set place out) heap fun result later => later = heap ∧
    Finds IsLeast {idx | idx ∉ subset.members ∧ place ≤ idx ∧ idx < subset.nbits} out result
  prev : forall place out, Ends (findPrev set place out) heap fun result later => later = heap ∧
    Finds IsGreatest {idx | idx ∈ subset.members ∧ idx ≤ place} out result
  prevClear : forall place out, Ends (findPrevClear set place out) heap fun result later => later = heap ∧
    Finds IsGreatest {idx | idx ∉ subset.members ∧ idx ≤ place ∧ idx < subset.nbits} out result
  small : forall w bit, w < set.nwords -> bit < wordBits -> w * wordBits + bit < sizeRange
  walk : forall clears : Nat -> Bool, Ends (forEach set (noting set clears) []) heap fun visited later =>
    visited = subset.members.sort (· ≤ ·) ∧ Holds later.blocks set
      (subset.edit fun members => members.filter fun idx => clears idx = false)
  flipped : forall place out, Ends (findNext set place out) heap fun answer _ =>
    Ends (do flipAll set; findNextClear set place out) heap fun other _ => other = answer

theorem finds_unique {found : Set Nat} {first second : Bool × Nat} (one : Finds IsLeast found out first)
    (other : Finds IsLeast found out second) : first = second := by
  rcases one with ⟨yes, least⟩ | ⟨rfl, none_⟩
  · rcases other with ⟨yesToo, leastToo⟩ | ⟨_, none_⟩
    · exact Prod.ext (yes.trans yesToo.symm) (least.unique leastToo)
    · exact absurd least.1 (none_ ▸ Set.notMem_empty _)
  · rcases other with ⟨_, leastToo⟩ | ⟨rfl, _⟩
    · exact absurd leastToo.1 (none_ ▸ Set.notMem_empty _)
    · rfl

theorem mem_shown_clear {idx : Nat} :
    idx ∈ shown subset true <-> idx ∉ subset.members ∧ idx < subset.nbits := by
  rw [shown, if_pos rfl, Finset.mem_sdiff, Finset.mem_range, and_comm]

theorem Holds.scanned (holds : Holds heap.blocks self subset) : Scanned heap self subset := by
  have ⟨words, held⟩ := holds
  constructor
  · exact fun place out => ends_findNext holds
  · intro place out
    rw [findNextClear, ends_bind, holds.ends_assertBitSet]
    have searched : Ends (findNextImpl self true place out) heap _ := ends_findNextImpl holds
    simpa only [mem_shown_clear, and_assoc, and_comm (a := place ≤ _)] using searched
  · intro place out
    rw [findPrev, ends_bind, holds.ends_assertBitSet]
    exact ends_findPrevImpl holds
  · intro place out
    rw [findPrevClear, ends_bind, holds.ends_assertBitSet]
    have searched : Ends (findPrevImpl self true place out) heap _ := ends_findPrevImpl holds
    simpa only [mem_shown_clear, and_assoc, and_comm (a := _ ≤ place)] using searched
  · intro w bit inside within
    exact held.rep.idx_small (held.rep.length.symm ▸ inside) within
  · exact fun clears => ends_forEach_noting holds clears
  · intro place out
    apply (ends_findNext holds).mono
    rintro answer _ ⟨_, finds⟩
    rw [ends_bind]
    apply ends_flipAll holds
    intro later tends
    rw [findNextClear, ends_bind, tends.holds.ends_assertBitSet]
    apply (ends_findNextImpl tends.holds).mono
    rintro other _ ⟨_, found⟩
    have same : forall idx, idx ∈ shown (subset.edit fun members => Finset.range subset.nbits \ members) true <->
        idx ∈ subset.members := by
      intro idx
      rw [mem_shown_clear, Subset.edit, Finset.mem_inter, Finset.mem_sdiff, Finset.mem_range]
      have small : idx ∈ subset.members -> idx < subset.nbits :=
        fun inside => Finset.mem_range.mp (subset.within inside)
      by_cases inside : idx ∈ subset.members
      · simp [inside, small inside]
      · simp [inside]
    simp only [same] at found
    exact finds_unique found finds

/-- In every run, each bitset is scanned as the subset is that the run computes. -/
theorem Follows.scans {s : BitSetObjects} {abs : Nat -> Subset} (follows : Follows s abs) (var : Nat)
    (real : (s.objs var).al.isSome = true) : Scanned s.mem (s.objs var) (abs var) :=
  (follows.invariant.holds real).scanned

theorem Follows.scans_complement : Ends (findNext (complement.objs 0) 70 99) complement.mem
    fun result _ => result = (false, 99) := by
  rcases complement_follows with ⟨abs, follows, members⟩
  apply ((Follows.scans follows 0 rfl).next 70 99).mono
  rintro result later ⟨_, ⟨_, least⟩ | ⟨nothing, _⟩⟩
  · have inside := least.1.1
    rw [members] at inside
    have below := Finset.mem_range.mp (Finset.mem_sdiff.mp inside).1
    exact absurd least.1.2 (Nat.not_le.mpr below)
  · exact nothing

end BitSet
end TerseDsa
