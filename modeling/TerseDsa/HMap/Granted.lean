import TerseDsa.HMap.Refinement

namespace TerseDsa

open Foundation Run

/-!
# A map that is refused nothing

Over a heap that grants every request an insertion succeeds, unless it needs a
bucket array that no address space holds, and the heap grants every request
still.  Nothing has to be known of the map for this.
-/

namespace HMap

open Run Heap

variable {K V : Type} {self : HMap K} {heap : HMapMem K V} {key : K} {val : Option V} {hash : Hash}

/-! ## What keeps the heap generous -/

theorem keeps_readNode {addr : Addr} : Keeps Generous (readNode (K := K) (V := V) addr) := by
  refine Generous.keeps_read.bind fun cell => ?_
  cases cell with
  | buckets slots => exact .of_failure
  | node node => exact .of_pure node

theorem keeps_writeNode {addr : Addr} {node : HMapNode K V} : Keeps Generous (writeNode addr node) :=
  keeps_readNode.bind fun _ => Generous.keeps_write

theorem keeps_readSlots {array : Option Addr} : Keeps Generous (readSlots (K := K) (V := V) array) := by
  refine (Keeps.of_demand array).bind fun addr => Generous.keeps_read.bind fun cell => ?_
  cases cell with
  | buckets slots => exact .of_pure slots
  | node node => exact .of_failure

theorem keeps_readSlot {array : Option Addr} {idx : Nat} :
    Keeps Generous (readSlot (K := K) (V := V) array idx) :=
  keeps_readSlots.bind fun slots => .of_demand slots[idx]?

theorem keeps_writeSlot {array ptr : Option Addr} {idx : Nat} :
    Keeps Generous (writeSlot (K := K) (V := V) array idx ptr) :=
  (Keeps.of_demand array).bind fun _ => keeps_readSlots.bind fun _ =>
    (Keeps.of_require _).bind fun _ => Generous.keeps_write

theorem keeps_readLink {link : HMapLink} : Keeps Generous (readLink (V := V) self link) := by
  cases link with
  | bucket idx => exact keeps_readSlot
  | next addr => exact keeps_readNode.bind fun node => .of_pure node.next

theorem keeps_writeLink {link : HMapLink} {ptr : Option Addr} :
    Keeps Generous (writeLink (V := V) self link ptr) := by
  cases link with
  | bucket idx => exact keeps_writeSlot
  | next addr => exact keeps_readNode.bind fun _ => keeps_writeNode

theorem keeps_dealloc {al : Al} {ptr : Option Addr} {layout : Layout} :
    Keeps Generous (dealloc al ptr layout : Run (HMapMem K V) Unit) := by
  refine (Keeps.of_require _).bind fun _ => (Keeps.of_require _).bind fun _ => ?_
  cases ptr with
  | none => exact .of_pure ()
  | some addr => exact Generous.keeps_release

theorem keeps_deallocN {al : Al} {ptr : Option Addr} {elem : Layout} {count : Nat} :
    Keeps Generous (deallocN al ptr elem count : Run (HMapMem K V) Unit) :=
  (Keeps.of_demand _).bind fun _ => keeps_dealloc

theorem keeps_bucketIn {count : Nat} : Keeps Generous (bucketIn (K := K) (V := V) hash count) :=
  (Keeps.of_require _).bind fun _ => .of_pure _

theorem keeps_bucketOf : Keeps Generous (bucketOf (V := V) self hash) :=
  (Keeps.of_require _).bind fun _ => keeps_bucketIn

theorem keeps_findLink : Keeps Generous (findLink (V := V) self key hash) := by
  refine keeps_bucketOf.bind fun idx => Keeps.loop (fun link => keeps_readLink.bind fun found => ?_) _ _
  cases found with
  | none => exact .of_pure _
  | some addr => exact keeps_readNode.bind fun node => (Keeps.of_pure _).ite (.of_pure _)

theorem keeps_findNode : Keeps Generous (findNode (V := V) self key hash) := by
  refine (Keeps.of_pure _).ite (keeps_bucketOf.bind fun idx => keeps_readSlot.bind fun head =>
    Keeps.loop (fun ptr => ?_) _ _)
  cases ptr with
  | none => exact .of_pure _
  | some addr => exact keeps_readNode.bind fun node => (Keeps.of_pure _).ite (.of_pure _)

theorem keeps_linkNode {array : Option Addr} {count : Nat} {addr : Addr} :
    Keeps Generous (linkNode (K := K) (V := V) array count addr) :=
  keeps_readNode.bind fun _ => keeps_bucketIn.bind fun _ => keeps_readSlot.bind fun _ =>
    keeps_writeNode.bind fun _ => keeps_writeSlot

theorem keeps_relinkChain {array head : Option Addr} {count : Nat} :
    Keeps Generous (relinkChain (V := V) self array count head) := by
  refine Keeps.loop (fun ptr => ?_) _ _
  cases ptr with
  | none => exact .of_pure _
  | some addr => exact keeps_readNode.bind fun _ => keeps_linkNode.bind fun _ => .of_pure _

theorem keeps_removeAt {link : HMapLink} : Keeps Generous (removeAt (V := V) self link) :=
  keeps_readLink.bind fun _ => (Keeps.of_demand _).bind fun _ => keeps_readNode.bind fun _ =>
    keeps_writeLink.bind fun _ => keeps_dealloc.bind fun _ => .of_pure _

theorem keeps_take : Keeps Generous (take (V := V) self key) := by
  refine (Keeps.of_require _).bind fun _ => (Keeps.of_pure _).ite
    (keeps_findLink.bind fun link => keeps_readLink.bind fun found => ?_)
  cases found with
  | none => exact .of_pure _
  | some addr => exact keeps_readNode.bind fun _ => keeps_removeAt.bind fun _ =>
      (Keeps.of_require _).bind fun _ => .of_pure _

theorem keeps_remove : Keeps Generous (remove (V := V) self key) :=
  (Keeps.of_require _).bind fun _ => keeps_take.bind fun _ => (Keeps.of_require _).bind fun _ => .of_pure _

/-! ## What is granted -/

theorem allows_alloc (generous : heap.Generous) {al : Al} {layout : Layout} {cell : HMapCell K V}
    (sized : layout.size ≠ 0) :
    Allows (alloc al layout cell) heap fun addr later => addr.isSome = true ∧ later.Generous := by
  unfold alloc
  simp only [allows_bind, allows_require, if_neg sized]
  exact fun _ => generous.allows_request

theorem bucketsFor_go_le {len bound k : Nat} (small : len ≤ 2 ^ 60) (low : k ≤ 60) :
    bucketsFor.go len bound (2 ^ k) ≠ 0 ∧ bucketsFor.go len bound (2 ^ k) ≤ 2 ^ 60 := by
  induction bound generalizing k with
  | zero => exact ⟨(Nat.two_pow_pos k).ne', Nat.pow_le_pow_right (by omega) low⟩
  | succ bound ih =>
      rw [bucketsFor.go]
      by_cases more : 2 ^ k < len
      · have below : k < 60 := (Nat.pow_lt_pow_iff_right (by omega)).mp (Nat.lt_of_lt_of_le more small)
        have fits : 2 ^ (k + 1) < sizeRange := Nat.pow_lt_pow_right (by omega) (by omega)
        have double : ckdMul (2 ^ k) growthFactor = some (2 ^ (k + 1)) := by
          unfold ckdMul
          rw [show 2 ^ k * growthFactor = 2 ^ (k + 1) from (Nat.pow_succ 2 k).symm, if_pos fits]
        rw [if_pos more, double]
        exact ih below
      · rw [if_neg more]
        exact ⟨(Nat.two_pow_pos k).ne', Nat.pow_le_pow_right (by omega) low⟩

theorem allows_rehash (generous : heap.Generous) {count : Nat} (real : count ≠ 0) (small : count ≤ 2 ^ 60) :
    Allows (rehash (V := V) self count) heap fun out later =>
      out.1 = .ok ∧ out.2.node = self.node ∧ later.Generous := by
  have fits : Layout.ofPointer.ckdArray count = some ⟨count * 8, 8⟩ := by
    have below : count * 8 < sizeRange := by
      unfold sizeRange
      omega
    unfold Layout.ckdArray ckdMul
    rw [show Layout.ofPointer.size = 8 from rfl, Nat.mul_comm 8 count] at *
    rw [if_pos below]
    rfl
  unfold rehash allocN
  simp only [allows_bind, allows_require, fits]
  intro _
  refine (allows_alloc generous ?_).mono ?_
  · exact Nat.mul_ne_zero real (by decide)
  · rintro fresh later ⟨granted, generous⟩
    cases fresh with
    | none => cases granted
    | some array =>
        simp only [allows_bind]
        have moves : Keeps Generous (countUp (fun idx _ => do
            let head ← readSlot (V := V) self.buckets idx
            relinkChain self (some array) count head) self.bucketCount 0 ()) :=
          Keeps.countUp (fun _ _ => keeps_readSlot.bind fun _ => keeps_relinkChain) _ _ _
        refine (moves later generous).mono fun _ later generous => ?_
        refine (keeps_deallocN later generous).mono fun _ later generous => ?_
        simp only [assertHMap, allows_require, allows_pure]
        exact fun _ => ⟨trivial, trivial, generous⟩

theorem allows_reserveBuckets (generous : heap.Generous) {cap : Nat} (small : cap ≤ 2 ^ 60) :
    Allows (reserveBuckets (V := V) self cap) heap fun out later =>
      out.1 = .ok ∧ out.2.node = self.node ∧ later.Generous := by
  have fits : bucketsFor cap ≠ 0 ∧ bucketsFor cap ≤ 2 ^ 60 := bucketsFor_go_le small (k := 3) (by decide)
  unfold reserveBuckets
  by_cases enough : cap ≤ self.bucketCount
  · rw [if_pos enough, allows_pure]
    exact ⟨rfl, rfl, generous⟩
  · rw [if_neg enough, if_neg fits.1]
    exact allows_rehash generous fits.1 fits.2

/-- An insertion succeeds and adds one entry at most. -/
theorem allows_insert (generous : heap.Generous) (sized : self.node.size ≠ 0) (small : self.len < 2 ^ 60) :
    Allows (insert self key val) heap fun out later => out.1 = .ok ∧ later.Generous := by
  have room : wrapAdd self.len 1 ≤ 2 ^ 60 := by
    rw [wrapAdd_eq (by unfold sizeRange; omega)]
    exact small
  unfold insert
  simp only [assertHMap, allows_bind, allows_require]
  intro _ _
  refine (keeps_findNode heap generous).mono ?_
  intro found later generous
  cases found with
  | some addr =>
      by_cases valued : self.val.size > 0
      · simp only [if_pos valued, allows_bind, allows_pure, true_and]
        exact (keeps_readNode later generous).mono fun _ _ generous => keeps_writeNode _ generous
      · simp only [if_neg valued, allows_pure, true_and]
        exact generous
  | none =>
      simp only [addNode, reserveOne, allows_bind]
      refine (allows_reserveBuckets generous room).mono ?_
      rintro ⟨st, grown⟩ later ⟨rfl, sameNode, generous⟩
      simp only [if_granted, allows_bind, allocNode]
      refine (allows_alloc generous (sameNode ▸ sized)).mono ?_
      rintro addr later ⟨granted, generous⟩
      cases addr with
      | none => cases granted
      | some addr =>
          simp only [assertHMap, allows_bind, allows_require, allows_pure, if_granted, true_and]
          exact (keeps_linkNode later generous).mono fun _ _ generous _ _ => generous

end HMap
end TerseDsa
