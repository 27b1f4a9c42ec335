import Mathlib.Data.Finset.Card
import Mathlib.Data.List.GetD
import Mathlib.Algebra.BigOperators.Group.List.Basic
import Mathlib.Order.Interval.Finset.Nat
import Mathlib.Order.Bounds.Basic
import Mathlib.Algebra.Order.Group.Nat
import Mathlib.Algebra.GroupWithZero.Nat

namespace TerseDsa
namespace Foundation

/-!
# Bits in a sequence of words

A sequence of words of `w` bits each is one sequence of bits, of which word `k`
holds those from `k * w` on; past the last word all bits are clear.  What is
done word by word is done bit by bit.
-/

variable {w : Nat} {words others : List (BitVec w)} {word : BitVec w} {idx k : Nat}

/-- Bit number `idx`. -/
def bitAt (words : List (BitVec w)) (idx : Nat) : Bool := (words.getD (idx / w) 0).getLsbD (idx % w)

theorem bitAt_of_lt (inside : idx / w < words.length) :
    bitAt words idx = words[idx / w].getLsbD (idx % w) := by
  rw [bitAt, List.getD_eq_getElem _ _ inside]

theorem bitAt_of_le (outside : words.length ≤ idx / w) : bitAt words idx = false := by
  rw [bitAt, List.getD_eq_default _ _ outside]
  exact BitVec.getLsbD_zero

theorem lt_of_bitAt (wide : 0 < w) (here : bitAt words idx = true) : idx < words.length * w := by
  by_contra outside
  rw [bitAt_of_le ((Nat.le_div_iff_mul_le wide).mpr (Nat.le_of_not_lt outside))] at here
  cases here

theorem getLsbD_getD {bit : Nat} (within : bit < w) :
    (words.getD k 0).getLsbD bit = bitAt words (k * w + bit) := by
  have wide : 0 < w := Nat.lt_of_le_of_lt (Nat.zero_le _) within
  have at_ : (k * w + bit) / w = k := by
    rw [Nat.mul_comm, Nat.mul_add_div wide, Nat.div_eq_of_lt within, Nat.add_zero]
  have place : (k * w + bit) % w = bit := by
    rw [Nat.mul_comm, Nat.mul_add_mod, Nat.mod_eq_of_lt within]
  unfold bitAt
  rw [at_, place]

theorem bitAt_word (inside : k < words.length) {bit : Nat} (within : bit < w) :
    bitAt words (k * w + bit) = words[k].getLsbD bit := by
  rw [← getLsbD_getD within, List.getD_eq_getElem _ _ inside]

theorem ne_iff_getLsbD {left right : BitVec w} :
    left ≠ right <-> exists bit, bit < w ∧ left.getLsbD bit ≠ right.getLsbD bit := by
  constructor
  · intro different
    by_contra same
    push Not at same
    exact different (BitVec.eq_of_getLsbD_eq same)
  · rintro ⟨bit, _, different⟩ rfl
    exact different rfl

/-- Sequences of one length that agree in all bits are the same. -/
theorem eq_of_bitAt (length : words.length = others.length)
    (same : forall idx, bitAt words idx = bitAt others idx) : words = others := by
  apply List.ext_getElem length
  intro k inside inside'
  apply BitVec.eq_of_getLsbD_eq
  intro bit within
  rw [← bitAt_word inside within, ← bitAt_word inside' within, same]

theorem bitAt_set (inside : k < words.length) :
    bitAt (words.set k word) idx = if idx / w = k then word.getLsbD (idx % w) else bitAt words idx := by
  unfold bitAt
  by_cases here : idx / w = k
  · rw [if_pos here, here, List.getD_eq_getElem _ _ (by rwa [List.length_set]), List.getElem_set_self]
  · rw [if_neg here, List.getD_eq_getElem?_getD, List.getElem?_set_ne (Ne.symm here),
      ← List.getD_eq_getElem?_getD]

theorem bitAt_append_left (inside : idx / w < words.length) :
    bitAt (words ++ others) idx = bitAt words idx := by
  unfold bitAt
  rw [List.getD_append _ _ _ _ inside]

theorem bitAt_last {bit : Nat} (within : bit < w) :
    bitAt (words ++ [word]) (words.length * w + bit) = word.getLsbD bit := by
  rw [bitAt_word (by rw [List.length_append]; exact Nat.lt_succ_self _) within,
    List.getElem_append_right (Nat.le_refl _)]
  simp only [Nat.sub_self, List.getElem_cons_zero]

theorem bitAt_replicate (inside : idx / w < k) :
    bitAt (List.replicate k word) idx = word.getLsbD (idx % w) := by
  rw [bitAt_of_lt (by rwa [List.length_replicate]), List.getElem_replicate]

theorem bitAt_zipWith {f : BitVec w -> BitVec w -> BitVec w} {g : Bool -> Bool -> Bool}
    (wide : 0 < w) (bitwise : forall left right bit, bit < w ->
      (f left right).getLsbD bit = g (left.getLsbD bit) (right.getLsbD bit))
    (length : words.length = others.length) (inside : idx / w < words.length) :
    bitAt (List.zipWith f words others) idx = g (bitAt words idx) (bitAt others idx) := by
  have here : idx / w < (List.zipWith f words others).length := by
    rw [List.length_zipWith, ← length, Nat.min_self]
    exact inside
  rw [bitAt_of_lt here, List.getElem_zipWith, bitwise _ _ _ (Nat.mod_lt _ wide), bitAt_of_lt inside,
    bitAt_of_lt (length ▸ inside)]

/-! ## The first and the last set bit of a word -/

theorem isLeast_ctz (some_ : word ≠ 0#w) : IsLeast {bit | word.getLsbD bit = true} word.ctz.toNat := by
  refine ⟨BitVec.getLsbD_true_ctz_of_ne_zero some_, fun bit set_ => ?_⟩
  by_contra early
  rw [Set.mem_ofPred_eq, BitVec.getLsbD_false_of_lt_ctz (Nat.lt_of_not_le early)] at set_
  cases set_

theorem clz_lt (some_ : word ≠ 0#w) : word.clz.toNat < w := by
  have wide : 0 < w := by
    by_contra narrow
    have empty : w = 0 := Nat.eq_zero_of_not_pos narrow
    subst empty
    exact some_ (Subsingleton.elim word _)
  have below := BitVec.clz_lt_iff_ne_zero.mpr some_
  rw [BitVec.lt_def, BitVec.natCast_eq_ofNat, BitVec.toNat_ofNat, Nat.mod_eq_of_lt Nat.lt_two_pow_self] at below
  exact below

theorem isGreatest_clz (some_ : word ≠ 0#w) :
    IsGreatest {bit | word.getLsbD bit = true} (w - 1 - word.clz.toNat) := by
  have below := clz_lt some_
  refine ⟨BitVec.getLsbD_true_clz_of_ne_zero (Nat.lt_of_le_of_lt (Nat.zero_le _) below) some_, fun bit set_ => ?_⟩
  have small : 2 ^ bit ≤ word.toNat := Nat.ge_two_pow_of_testBit set_
  have bounded : 2 ^ bit < 2 ^ (w - word.clz.toNat) := Nat.lt_of_le_of_lt small BitVec.toNat_lt_two_pow_sub_clz
  have before := (Nat.pow_lt_pow_iff_right (by decide)).mp bounded
  omega

/-! ## The set bits -/

/-- The numbers of the bits that are set. -/
def ones (words : List (BitVec w)) : Finset Nat :=
  (Finset.range (words.length * w)).filter fun idx => bitAt words idx = true

theorem mem_ones (wide : 0 < w) : idx ∈ ones words <-> bitAt words idx = true := by
  unfold ones
  rw [Finset.mem_filter, Finset.mem_range]
  exact ⟨And.right, fun here => ⟨lt_of_bitAt wide here, here⟩⟩

/-- Counting word by word counts the set bits. -/
theorem card_ones (wide : 0 < w) :
    (ones words).card = (words.map fun word => word.cpop.toNat).sum := by
  have counted : forall (word : BitVec w) (n : Nat),
      word.cpopNatRec n 0 = ((Finset.range n).filter fun bit => word.getLsbD bit = true).card := by
    intro word n
    induction n with
    | zero => rfl
    | succ n ih =>
        rw [BitVec.cpopNatRec_succ, BitVec.cpopNatRec_add, ih, Finset.range_add_one,
          Finset.filter_insert]
        by_cases set_ : word.getLsbD n = true
        · rw [if_pos set_, Finset.card_insert_of_notMem (by simp), set_]
          rfl
        · rw [if_neg set_, Bool.eq_false_iff.mpr set_]
          rfl
  induction words using List.reverseRecOn with
  | nil => simp [ones]
  | append_singleton before last ih =>
      have split : ones (before ++ [last]) = ones before ∪
          ((Finset.range w).filter fun bit => last.getLsbD bit = true).map
            (addLeftEmbedding (before.length * w)) := by
        ext idx
        rw [Finset.mem_union, mem_ones wide, mem_ones wide, Finset.mem_map]
        constructor
        · intro here
          by_cases early : idx < before.length * w
          · rw [bitAt_append_left ((Nat.div_lt_iff_lt_mul wide).mpr early)] at here
            exact Or.inl here
          · have within := lt_of_bitAt wide here
            rw [List.length_append, List.length_singleton, Nat.add_mul, Nat.one_mul] at within
            have place : before.length * w + (idx - before.length * w) = idx :=
              Nat.add_sub_cancel' (Nat.le_of_not_lt early)
            rw [← place, bitAt_last (by omega)] at here
            exact Or.inr ⟨idx - before.length * w,
              Finset.mem_filter.mpr ⟨Finset.mem_range.mpr (by omega), here⟩, place⟩
        · rintro (here | ⟨bit, member, rfl⟩)
          · have early := (Nat.div_lt_iff_lt_mul wide).mpr (lt_of_bitAt wide here)
            rwa [bitAt_append_left early]
          · rcases Finset.mem_filter.mp member with ⟨small, set_⟩
            exact (bitAt_last (Finset.mem_range.mp small)).trans set_
      have apart : Disjoint (ones before) (((Finset.range w).filter fun bit => last.getLsbD bit = true).map
          (addLeftEmbedding (before.length * w))) := by
        rw [Finset.disjoint_left]
        intro idx here there
        rcases Finset.mem_map.mp there with ⟨bit, _, rfl⟩
        have early := lt_of_bitAt wide ((mem_ones wide).mp here)
        exact absurd early (Nat.not_lt.mpr (Nat.le_add_right _ _))
      rw [split, Finset.card_union_of_disjoint apart, Finset.card_map, ih,
        List.map_append, List.sum_append, List.map_singleton, List.sum_singleton, BitVec.toNat_cpop, counted]

/-- No bit is set exactly if every word is zero. -/
theorem ones_eq_empty (wide : 0 < w) : ones words = ∅ <-> forall word, word ∈ words -> word = 0 := by
  constructor
  · intro none_ word member
    rcases List.getElem_of_mem member with ⟨k, inside, rfl⟩
    apply BitVec.eq_of_getLsbD_eq
    intro bit within
    rw [← bitAt_word inside within]
    have clear : k * w + bit ∉ ones words := none_ ▸ Finset.notMem_empty _
    rw [mem_ones wide] at clear
    rw [Bool.eq_false_iff.mpr clear]
    exact BitVec.getLsbD_zero.symm
  · intro zero
    ext idx
    rw [mem_ones wide]
    constructor
    · intro here
      have inside : idx / w < words.length := by
        by_contra outside
        rw [bitAt_of_le (Nat.le_of_not_lt outside)] at here
        cases here
      rw [bitAt_of_lt inside, zero _ (List.getElem_mem inside)] at here
      exact absurd (here.symm.trans BitVec.getLsbD_zero) (by decide)
    · exact fun impossible => absurd impossible (Finset.notMem_empty idx)

end Foundation
end TerseDsa
