import TerseDsa.Foundation.Run
import Mathlib.Tactic.Common
import Mathlib.Data.List.Pairwise
import Mathlib.Order.Interval.Finset.Nat
import Mathlib.Algebra.GroupWithZero.Nat

namespace TerseDsa
namespace Foundation

/-!
# Bytes, words and regions

Memory that is carved up by address: a byte for every address, words of eight
bytes read from and written to it, and regions, which lie apart or overlap.
A word that was stored is loaded again as long as nothing was written into its
region.
-/

abbrev Byte := BitVec 8

/-- A byte for every address. -/
abbrev Bytes := Nat -> Byte

/-! ## Regions -/

/-- So many bytes from an address on. -/
structure Region where
  start : Nat
  size : Nat

namespace Region

variable {region other inner outer : Region} {addr : Nat}

/-- The address behind the last byte. -/
def stop (region : Region) : Nat := region.start + region.size

/-- The address is one of the region's. -/
def Covers (region : Region) (addr : Nat) : Prop := region.start ≤ addr ∧ addr < region.stop

/-- One region lies inside the other. -/
def Within (inner outer : Region) : Prop := outer.start ≤ inner.start ∧ inner.stop ≤ outer.stop

/-- One region lies before the other. -/
def Apart (region other : Region) : Prop := region.stop ≤ other.start ∨ other.stop ≤ region.start

instance : Decidable (region.Covers addr) := inferInstanceAs (Decidable (_ ∧ _))

instance : Decidable (inner.Within outer) := inferInstanceAs (Decidable (_ ∧ _))

instance : Decidable (region.Apart other) := inferInstanceAs (Decidable (_ ∨ _))

theorem Apart.symm (apart : region.Apart other) : other.Apart region := Or.symm apart

theorem Within.trans {middle : Region} (first : inner.Within middle) (second : middle.Within outer) :
    inner.Within outer :=
  ⟨Nat.le_trans second.1 first.1, Nat.le_trans first.2 second.2⟩

theorem Within.refl (region : Region) : region.Within region := ⟨Nat.le_refl _, Nat.le_refl _⟩

/-- What lies inside either of two regions apart is apart. -/
theorem Apart.within (apart : region.Apart other) (left : inner.Within region)
    (right : outer.Within other) : inner.Apart outer := by
  unfold Apart Within stop at *
  omega

theorem Apart.not_covers (apart : region.Apart other) (covers : region.Covers addr) :
    ¬ other.Covers addr := by
  unfold Apart Covers stop at *
  omega

/-- Of things whose regions lie apart pairwise, any two do. -/
theorem apart_of_pairwise {α : Type} (view : α -> Region) {all : List α} {left right : α}
    (apart : all.Pairwise fun left right => (view left).Apart (view right)) (inside : left ∈ all)
    (also : right ∈ all) (different : left ≠ right) : (view left).Apart (view right) := by
  have : Std.Symm fun left right => (view left).Apart (view right) := ⟨fun _ _ apart => apart.symm⟩
  exact List.Pairwise.forall apart inside also different

/-- A part of a region that is not the whole of it. -/
theorem within_of_le {start size less : Nat} (shrunk : less ≤ size) :
    Within ⟨start, less⟩ ⟨start, size⟩ := by
  unfold Within stop
  exact ⟨Nat.le_refl _, Nat.add_le_add_left shrunk start⟩

/-- Regions that lie apart cover as many addresses as their sizes add up to. -/
theorem exists_covered {α : Type} (view : α -> Region) {all : List α}
    (apart : all.Pairwise fun left right => (view left).Apart (view right)) :
    exists covered : Finset Nat, covered.card = (all.map fun each => (view each).size).sum ∧
      forall addr, addr ∈ covered -> exists each, each ∈ all ∧ (view each).Covers addr := by
  induction all with
  | nil => exact ⟨∅, rfl, fun _ impossible => absurd impossible (Finset.notMem_empty _)⟩
  | cons first rest ih =>
      rw [List.pairwise_cons] at apart
      rcases ih apart.2 with ⟨covered, card, within⟩
      have disjoint : Disjoint (Finset.Ico (view first).start (view first).stop) covered := by
        rw [Finset.disjoint_left]
        intro addr inside also
        rcases within addr also with ⟨each, there, covers⟩
        exact (apart.1 each there).not_covers (Finset.mem_Ico.mp inside) covers
      refine ⟨Finset.Ico (view first).start (view first).stop ∪ covered, ?_, ?_⟩
      · rw [Finset.card_union_of_disjoint disjoint, Nat.card_Ico, card, List.map_cons, List.sum_cons, stop,
          Nat.add_sub_cancel_left]
      · intro addr inside
        rcases Finset.mem_union.mp inside with mine | others
        · exact ⟨first, List.mem_cons_self, Finset.mem_Ico.mp mine⟩
        · rcases within addr others with ⟨each, there, covers⟩
          exact ⟨each, List.mem_cons_of_mem _ there, covers⟩

/-- Regions that lie apart below a limit have no more bytes together than there are below it. -/
theorem total_le {α : Type} (view : α -> Region) {all : List α} {limit : Nat}
    (apart : all.Pairwise fun left right => (view left).Apart (view right))
    (below : forall each, each ∈ all -> (view each).stop ≤ limit) :
    (all.map fun each => (view each).size).sum ≤ limit := by
  rcases exists_covered view apart with ⟨covered, card, within⟩
  have sub : covered ⊆ Finset.range limit := by
    intro addr inside
    rcases within addr inside with ⟨each, there, covers⟩
    exact Finset.mem_range.mpr (Nat.lt_of_lt_of_le covers.2 (below each there))
  rw [← card, ← Finset.card_range limit]
  exact Finset.card_le_card sub

end Region

/-! ## Words -/

namespace Bytes

variable {bytes later : Bytes} {addr value count : Nat} {byte : Byte}

/-- How many bytes a word has. -/
def wordSize : Nat := 8

/-- What `count` bytes from `addr` on spell out, the lowest one first. -/
def number (bytes : Bytes) (addr : Nat) : (count : Nat) -> Nat
  | 0 => 0
  | count + 1 => (bytes addr).toNat + 256 * number bytes (addr + 1) count

/-- The word at `addr`. -/
@[irreducible] def load (bytes : Bytes) (addr : Nat) : Nat := number bytes addr wordSize

/-- The memory after the region was overwritten. -/
def overwrite (bytes : Bytes) (region : Region) (content : Nat -> Byte) : Bytes := fun addr =>
  if region.Covers addr then content (addr - region.start) else bytes addr

/-- The memory after a word was written at `addr`. -/
def store (bytes : Bytes) (addr value : Nat) : Bytes :=
  overwrite bytes ⟨addr, wordSize⟩ fun offset => BitVec.ofNat 8 (value / 256 ^ offset)

/-- `memset`. -/
def fill (bytes : Bytes) (addr count : Nat) (byte : Byte) : Bytes :=
  overwrite bytes ⟨addr, count⟩ fun _ => byte

/-- `memcpy`. -/
def copy (bytes : Bytes) (dst src count : Nat) : Bytes :=
  overwrite bytes ⟨dst, count⟩ fun offset => bytes (src + offset)

/-- The memory is as before but for the region. -/
def Keeps (bytes later : Bytes) (region : Region) : Prop :=
  forall addr, ¬ region.Covers addr -> later addr = bytes addr

theorem keeps_overwrite (bytes : Bytes) (region : Region) (content : Nat -> Byte) :
    Keeps bytes (overwrite bytes region content) region :=
  fun _ outside => if_neg outside

theorem number_congr (same : forall offset, offset < count -> later (addr + offset) = bytes (addr + offset)) :
    number later addr count = number bytes addr count := by
  induction count generalizing addr with
  | zero => rfl
  | succ count ih =>
      have first := same 0 (Nat.succ_pos count)
      have rest : number later (addr + 1) count = number bytes (addr + 1) count := by
        apply ih
        intro offset inside
        have shifted := same (offset + 1) (Nat.succ_lt_succ inside)
        rw [Nat.add_assoc, Nat.add_comm 1 offset]
        exact shifted
      rw [number, number, rest]
      rw [Nat.add_zero] at first
      rw [first]

/-- A word outside of what was written is the word that was there. -/
theorem load_of_apart {region : Region} (keeps : Keeps bytes later region)
    (apart : Region.Apart ⟨addr, wordSize⟩ region) : load later addr = load bytes addr := by
  rw [load, load]
  apply number_congr
  intro offset inside
  apply keeps
  apply apart.not_covers
  exact ⟨Nat.le_add_right _ _, Nat.add_lt_add_left inside addr⟩

theorem number_digits (spelt : forall offset, offset < count ->
      bytes (addr + offset) = BitVec.ofNat 8 (value / 256 ^ offset)) :
    number bytes addr count = value % 256 ^ count := by
  induction count generalizing addr value with
  | zero => rw [Nat.pow_zero, Nat.mod_one]; rfl
  | succ count ih =>
      have first := spelt 0 (Nat.succ_pos count)
      have rest : number bytes (addr + 1) count = value / 256 % 256 ^ count := by
        apply ih
        intro offset inside
        have shifted := spelt (offset + 1) (Nat.succ_lt_succ inside)
        rw [Nat.div_div_eq_div_mul, ← Nat.pow_succ', Nat.add_assoc, Nat.add_comm 1 offset]
        exact shifted
      rw [Nat.add_zero, Nat.pow_zero, Nat.div_one] at first
      rw [number, rest, first, BitVec.toNat_ofNat, Nat.pow_succ' (n := count), Nat.mod_mul (x := value)]

theorem load_store (fits : value < 2 ^ 64) : load (store bytes addr value) addr = value := by
  have spelt : forall offset, offset < wordSize ->
      store bytes addr value (addr + offset) = BitVec.ofNat 8 (value / 256 ^ offset) := by
    intro offset inside
    have covers : Region.Covers ⟨addr, wordSize⟩ (addr + offset) :=
      ⟨Nat.le_add_right _ _, Nat.add_lt_add_left inside addr⟩
    rw [store, overwrite, if_pos covers, Nat.add_sub_cancel_left]
  rw [load, number_digits spelt]
  exact Nat.mod_eq_of_lt fits

end Bytes
end Foundation
end TerseDsa
