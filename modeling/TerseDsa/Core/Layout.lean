import TerseDsa.Core.Size

namespace TerseDsa

/-!
# Layouts

The size and the alignment of a block, as one value.  The arithmetic that can
overflow is checked and returns nothing when it does.
-/

/-- `tda_Layout`. -/
structure Layout where
  size : Nat
  align : Nat
  deriving DecidableEq, Repr

namespace Layout

/-- `tda_layout_is_align`: a power of two. -/
def isAlign (align : Nat) : Bool :=
  decide (0 < align) && decide (align &&& (align - 1) = 0)

/-- `tda_layout_is_type`: what `TDA_LAYOUT_OF` always gives. -/
def isType (layout : Layout) : Bool :=
  isAlign layout.align && decide (0 < layout.size) && decide (layout.size % layout.align = 0)

/-- `tda_layout_ckd_array`: `count` elems back to back. -/
def ckdArray (elem : Layout) (count : Nat) : Option Layout :=
  (ckdMul elem.size count).map fun size => ⟨size, elem.align⟩

/-- The bytes that lift `size` to the next multiple of `align`. -/
def padding (size align : Nat) : Nat := wrapSub 0 size &&& (align - 1)

/-- `tda_layout_ckd_extend`: `field` as the next member of a struct, with the
offset it starts at. -/
def ckdExtend (self field : Layout) : Option (Layout × Nat) := do
  let offset ← ckdAdd self.size (padding self.size field.align)
  let size ← ckdAdd offset field.size
  return (⟨size, if field.align > self.align then field.align else self.align⟩, offset)

/-- `tda_layout_ckd_pad`: the size rounded up to the alignment. -/
def ckdPad (self : Layout) : Option Layout := do
  let size ← ckdAdd self.size (padding self.size self.align)
  return ⟨size, self.align⟩

/-- `TDA_LAYOUT_OF` of a pointer. -/
def ofPointer : Layout := ⟨8, 8⟩

theorem size_pos {layout : Layout} (isType : layout.isType = true) : 0 < layout.size := by
  simp only [Layout.isType, Bool.and_eq_true, decide_eq_true_eq] at isType
  exact isType.1.2

/-- An array has a layout unless its size overflows. -/
theorem ckdArray_cases (elem : Layout) (cap : Nat) :
    (elem.ckdArray cap = none ∧ sizeRange ≤ elem.size * cap) ∨
      (elem.ckdArray cap = some ⟨elem.size * cap, elem.align⟩ ∧ elem.size * cap < sizeRange) := by
  unfold Layout.ckdArray ckdMul
  by_cases fits : elem.size * cap < sizeRange
  · rw [if_pos fits]
    exact Or.inr ⟨rfl, fits⟩
  · rw [if_neg fits]
    exact Or.inl ⟨rfl, Nat.le_of_not_lt fits⟩

theorem ckdAdd_le {a b sum : Nat} (fits : ckdAdd a b = some sum) : a ≤ sum ∧ b ≤ sum := by
  unfold ckdAdd at fits
  split at fits
  · cases fits
    omega
  · cases fits

/-- A struct never gets smaller by a member. -/
theorem ckdExtend_size_le {self field layout : Layout} {offset : Nat}
    (fits : ckdExtend self field = some (layout, offset)) : self.size ≤ layout.size := by
  rcases Option.bind_eq_some_iff.mp fits with ⟨start, first, rest⟩
  rcases Option.bind_eq_some_iff.mp rest with ⟨size, second, same⟩
  cases same
  exact Nat.le_trans (ckdAdd_le first).1 (ckdAdd_le second).1

theorem ckdPad_size_le {self layout : Layout} (fits : ckdPad self = some layout) :
    self.size ≤ layout.size := by
  rcases Option.bind_eq_some_iff.mp fits with ⟨size, first, same⟩
  cases same
  exact (ckdAdd_le first).1

end Layout

/-- `tda_Status`. -/
inductive Status where
  | ok
  | errNoMem
  deriving DecidableEq, Repr

/-- After a call that was refused, the branch for failures is taken. -/
theorem if_refused {α : Type} (failed done : α) : (if Status.errNoMem ≠ .ok then failed else done) = failed := rfl

/-- After a call that was granted, the other one. -/
theorem if_granted {α : Type} (failed done : α) : (if Status.ok ≠ .ok then failed else done) = done := rfl

/-- What a `const void *val` points at: an elem outside the container, or a slot
of its own block. -/
inductive Operand (α : Type) where
  | outside (val : α)
  | slot (slot : Nat)

/-- Where a `void *out` points. -/
inductive Target where
  | outside
  | slot (slot : Nat)

/-- `tda_Pred`, with the state behind its `ctx`. -/
abbrev Pred (α C : Type) := α -> C -> Bool × C

/-- What a read-only `tda_Span` over memory outside the modelled state shows:
the elems, and the layout of one. -/
structure SpanView (α : Type) where
  elems : List α
  elem : Layout

namespace SpanView

variable {α : Type}

/-- The `len` field. -/
def len (view : SpanView α) : Nat := view.elems.length

end SpanView

/-!
## `core/align`

Sizes and addresses rounded up to an alignment.  A padding is a count that is
checked against the room left before an address is formed from it.
-/

/-- `tda_align_up`. -/
def alignUp (val align : Nat) : Nat :=
  wrapAdd val (align - 1) &&& (sizeMax ^^^ (align - 1))

/-- `tda_align_ckd_up`: nothing when the rounded size does not fit. -/
def alignCkdUp (val align : Nat) : Option Nat :=
  if val > sizeMax - (align - 1) then none else some (alignUp val align)

/-- `tda_align_pad`: the bytes up to the first address at or after `addr` on `align`. -/
def alignPad (addr align : Nat) : Nat := wrapSub 0 addr &&& (align - 1)

/-- `tda_align_meets`. -/
def alignMeets (addr align : Nat) : Bool := decide (addr &&& (align - 1) = 0)

variable {addr val align : Nat}

/-- An alignment that a `size_t` can hold is one of 64 powers of two. -/
theorem Layout.isAlign_iff :
    Layout.isAlign align = true <-> exists k, align = 2 ^ k := by
  simp only [Layout.isAlign, Bool.and_eq_true, decide_eq_true_eq]
  constructor
  · rintro ⟨positive, single⟩
    exact (Nat.ne_zero_and_sub_one_eq_zero_iff_isPowerOfTwo).mp ⟨Nat.ne_of_gt positive, single⟩
  · rintro ⟨k, rfl⟩
    refine ⟨Nat.two_pow_pos k, ?_⟩
    rw [Nat.and_two_pow_sub_one_eq_mod, Nat.mod_self]

/-- A representable alignment divides the range of `size_t`. -/
theorem Layout.isAlign_dvd (isAlign : Layout.isAlign align = true) (fits : align < sizeRange) :
    align ∣ sizeRange := by
  rcases Layout.isAlign_iff.mp isAlign with ⟨k, rfl⟩
  unfold sizeRange at fits ⊢
  have small : k < 64 := (Nat.pow_lt_pow_iff_right (by decide)).mp fits
  exact Nat.pow_dvd_pow 2 (Nat.le_of_lt small)

/-- Of two alignments the smaller one divides the larger one. -/
theorem Layout.isAlign_dvd_of_le {larger : Nat} (isAlign : Layout.isAlign align = true)
    (also : Layout.isAlign larger = true) (le : align ≤ larger) : align ∣ larger := by
  rcases Layout.isAlign_iff.mp isAlign with ⟨low, rfl⟩
  rcases Layout.isAlign_iff.mp also with ⟨high, rfl⟩
  exact Nat.pow_dvd_pow 2 ((Nat.pow_le_pow_iff_right (by decide)).mp le)

theorem and_isAlign (isAlign : Layout.isAlign align = true) : val &&& (align - 1) = val % align := by
  rcases Layout.isAlign_iff.mp isAlign with ⟨k, rfl⟩
  exact Nat.and_two_pow_sub_one_eq_mod val k

theorem alignMeets_iff (isAlign : Layout.isAlign align = true) :
    alignMeets addr align = true <-> align ∣ addr := by
  rw [alignMeets, decide_eq_true_eq, and_isAlign isAlign, Nat.dvd_iff_mod_eq_zero]

/-- The padding leads to a multiple of the alignment. -/
theorem alignPad_dvd (isAlign : Layout.isAlign align = true) (fits : align < sizeRange)
    (inside : addr < sizeRange) : align ∣ addr + alignPad addr align := by
  have whole := Layout.isAlign_dvd isAlign fits
  have back : wrapSub 0 addr % align = (sizeRange - addr) % align := by
    rw [wrapSub, Nat.mod_eq_of_lt inside, Nat.zero_add, Nat.mod_mod_of_dvd _ whole]
  rw [alignPad, and_isAlign isAlign, back, Nat.dvd_iff_mod_eq_zero, Nat.add_mod_mod]
  have sum : addr + (sizeRange - addr) = sizeRange := by omega
  rw [sum]
  exact Nat.mod_eq_zero_of_dvd whole

/-- Clearing the low bits rounds down. -/
theorem and_clear_low {k : Nat} (small : k ≤ 64) (inside : val < sizeRange) :
    val &&& (sizeMax ^^^ (2 ^ k - 1)) = val / 2 ^ k * 2 ^ k := by
  apply Nat.eq_of_testBit_eq
  intro bit
  have mask : sizeMax.testBit bit = decide (bit < 64) := Nat.testBit_two_pow_sub_one 64 bit
  rw [Nat.testBit_and, Nat.testBit_xor, mask, Nat.testBit_two_pow_sub_one, Nat.testBit_mul_two_pow,
    Nat.testBit_div_two_pow]
  by_cases low : bit < k
  · have below : bit < 64 := Nat.lt_of_lt_of_le low small
    simp [low, below]
  · have same : bit - k + k = bit := by omega
    by_cases below : bit < 64
    · simp [low, below, same, Nat.le_of_not_lt low]
    · have beyond : val.testBit bit = false := by
        apply Nat.testBit_lt_two_pow
        exact Nat.lt_of_lt_of_le inside (Nat.pow_le_pow_right (by decide) (Nat.le_of_not_lt below))
      simp [low, below, same, beyond]

/-- What was rounded up is a multiple of the alignment, and less than one step above. -/
theorem alignCkdUp_some (isAlign : Layout.isAlign align = true) (fits : align < sizeRange)
    {size : Nat} (up : alignCkdUp val align = some size) :
    align ∣ size ∧ val ≤ size ∧ size < val + align ∧ size < sizeRange := by
  rcases Layout.isAlign_iff.mp isAlign with ⟨k, rfl⟩
  have positive := Nat.two_pow_pos k
  have small : k < 64 := (Nat.pow_lt_pow_iff_right (by decide)).mp fits
  unfold alignCkdUp at up
  split at up
  · cases up
  · rename_i room
    have sum : val + (2 ^ k - 1) < sizeRange := by
      unfold sizeMax at room
      omega
    cases up
    rw [alignUp, wrapAdd_eq sum, and_clear_low (Nat.le_of_lt small) sum]
    have split_ := Nat.div_add_mod (val + (2 ^ k - 1)) (2 ^ k)
    have rest := Nat.mod_lt (val + (2 ^ k - 1)) positive
    rw [Nat.mul_comm] at split_
    refine ⟨Nat.dvd_mul_left _ _, ?_, ?_, ?_⟩ <;> omega
end TerseDsa
