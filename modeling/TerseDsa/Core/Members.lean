import TerseDsa.Core.Layout
import TerseDsa.Foundation.Bytes
import TerseDsa.Foundation.Rounding

namespace TerseDsa

open Foundation

/-!
# Structs built from layouts

`ckdExtend` and `ckdPad` compute the sizes that there are, and nothing exactly
when these do not fit.  A struct that was built by them holds its members: each
one inside, aligned, and apart from the others.
-/

/-- What is there exactly if a size fits. -/
theorem none_iff_of_ite {A : Type} {size : Nat} {found : A} :
    ((if size < sizeRange then some found else none) = none <-> sizeRange ≤ size) ∧
      (size < sizeRange -> (if size < sizeRange then some found else none) = some found) := by
  refine ⟨?_, fun fits => if_pos fits⟩
  by_cases fits : size < sizeRange
  · rw [if_pos fits]
    refine ⟨fun impossible => ?_, fun over_ => absurd fits (Nat.not_lt.mpr over_)⟩
    cases impossible
  · rw [if_neg fits]
    exact ⟨fun _ => Nat.le_of_not_lt fits, fun _ => rfl⟩

theorem alignUp_eq {val align : Nat} (isAlign : Layout.isAlign align = true) (representable : align < sizeRange)
    (room : val ≤ sizeMax - (align - 1)) : alignUp val align = roundUp val align := by
  have up := alignCkdUp_some isAlign representable (show alignCkdUp val align = some (alignUp val align) from
    if_neg (Nat.not_lt.mpr room))
  exact eq_roundUp up.1 up.2.1 up.2.2.1

namespace Layout

variable {self field struct layout : Layout} {size align offset base : Nat}

/-! ## Exact sizes -/

theorem isAlign_pos (isAlign : isAlign align = true) : 0 < align := by
  rcases isAlign_iff.mp isAlign with ⟨k, rfl⟩
  exact Nat.two_pow_pos k

/-- A type is at least as large as its alignment. -/
theorem isType_align (isType : layout.isType = true) : isAlign layout.align = true ∧ layout.align ≤ layout.size := by
  simp only [Layout.isType, Bool.and_eq_true, decide_eq_true_eq] at isType
  exact ⟨isType.1.1, Nat.le_of_dvd isType.1.2 (Nat.dvd_of_mod_eq_zero isType.2)⟩

theorem isType_dvd (isType : layout.isType = true) : layout.align ∣ layout.size := by
  simp only [Layout.isType, Bool.and_eq_true, decide_eq_true_eq] at isType
  exact Nat.dvd_of_mod_eq_zero isType.2

theorem add_padding (isAlign : isAlign align = true) (representable : align < sizeRange) (inside : size < sizeRange) :
    size + padding size align = roundUp size align := by
  have small : padding size align < align := by
    rw [padding, and_isAlign isAlign]
    exact Nat.mod_lt _ (isAlign_pos isAlign)
  exact eq_roundUp (alignPad_dvd isAlign representable inside) (Nat.le_add_right _ _) (by omega)

/-- An array overflows exactly if all its elems are too many bytes. -/
theorem ckdArray_eq (elem : Layout) (count : Nat) :
    ckdArray elem count =
      if elem.size * count < sizeRange then some ⟨elem.size * count, elem.align⟩ else none := by
  rcases ckdArray_cases elem count with ⟨none_, over_⟩ | ⟨some_, fits⟩
  · rw [none_, if_neg (Nat.not_lt.mpr over_)]
  · rw [some_, if_pos fits]

/-- A member overflows exactly if it ends too far behind the first place for it. -/
theorem ckdExtend_eq (isAlign : isAlign field.align = true) (representable : field.align < sizeRange)
    (inside : self.size < sizeRange) :
    ckdExtend self field =
      if roundUp self.size field.align + field.size < sizeRange then
        some (⟨roundUp self.size field.align + field.size, max self.align field.align⟩, roundUp self.size field.align)
      else none := by
  have larger : (if field.align > self.align then field.align else self.align) = max self.align field.align := by
    rw [Nat.max_def]
    split <;> split <;> omega
  rw [ckdExtend, ckdAdd, add_padding isAlign representable inside, larger]
  by_cases fits : roundUp self.size field.align + field.size < sizeRange
  · rw [if_pos fits, if_pos (Nat.lt_of_le_of_lt (Nat.le_add_right _ _) fits)]
    change (ckdAdd _ _ >>= _) = _
    rw [ckdAdd, if_pos fits]
    rfl
  · rw [if_neg fits]
    by_cases starts : roundUp self.size field.align < sizeRange
    · rw [if_pos starts]
      change (ckdAdd _ _ >>= _) = _
      rw [ckdAdd, if_neg fits]
      rfl
    · rw [if_neg starts]
      rfl

/-- Padding overflows exactly if the rounded size is too much. -/
theorem ckdPad_eq (isAlign : isAlign self.align = true) (representable : self.align < sizeRange)
    (inside : self.size < sizeRange) :
    ckdPad self =
      if roundUp self.size self.align < sizeRange then some ⟨roundUp self.size self.align, self.align⟩ else none := by
  rw [ckdPad, ckdAdd, add_padding isAlign representable inside]
  by_cases fits : roundUp self.size self.align < sizeRange
  · rw [if_pos fits, if_pos fits]
    rfl
  · rw [if_neg fits, if_neg fits]
    rfl

/-- A sum that was computed is one that a `size_t` can hold. -/
theorem ckdAdd_lt {a b sum : Nat} (fits : ckdAdd a b = some sum) : sum < sizeRange := by
  unfold ckdAdd at fits
  split at fits
  · cases fits
    assumption
  · cases fits

/-! ## Members -/

/-- A member of a struct: where it starts, and its layout. -/
structure Member where
  offset : Nat
  layout : Layout

/-- The bytes of the member in a struct at an address. -/
def Member.region (member : Member) (base : Nat) : Region := ⟨base + member.offset, member.layout.size⟩

variable {members : List Member} {member : Member}

/-- The struct has these members, each one behind those before it. -/
structure Contains (struct : Layout) (members : List Member) : Prop where
  isAlign : isAlign struct.align = true
  narrow : struct.align < sizeRange
  representable : struct.size < sizeRange
  aligned : forall member, member ∈ members -> Layout.isAlign member.layout.align = true ∧
    member.layout.align ≤ struct.align ∧ member.layout.align ∣ member.offset
  inside : forall member, member ∈ members -> member.offset + member.layout.size ≤ struct.size
  apart : members.Pairwise fun earlier later => earlier.offset + earlier.layout.size ≤ later.offset

namespace Contains

theorem first (isAlign : Layout.isAlign struct.align = true) (narrow : struct.align < sizeRange)
    (representable : struct.size < sizeRange) : struct.Contains [⟨0, struct⟩] := by
  refine ⟨isAlign, narrow, representable, ?_, ?_, List.pairwise_singleton _ _⟩
  · rintro member inside
    rw [List.mem_singleton.mp inside]
    exact ⟨isAlign, Nat.le_refl _, Nat.dvd_zero _⟩
  · rintro member inside
    rw [List.mem_singleton.mp inside]
    exact Nat.le_of_eq (Nat.zero_add _)

/-- One more member, behind the others, in a struct that is no smaller. -/
theorem append (contains : struct.Contains members) (isAlign : Layout.isAlign layout.align = true)
    (narrow : layout.align < sizeRange) (representable : layout.size < sizeRange) (wider : struct.align ≤ layout.align)
    (grown : struct.size ≤ layout.size) (fieldAlign : Layout.isAlign field.align = true) (larger : field.align ≤ layout.align)
    (dvd : field.align ∣ offset) (inside : offset + field.size ≤ layout.size)
    (behind : forall member, member ∈ members -> member.offset + member.layout.size ≤ offset) :
    layout.Contains (members ++ [⟨offset, field⟩]) := by
  refine ⟨isAlign, narrow, representable, ?_, ?_, ?_⟩
  · intro member among
    rcases List.mem_append.mp among with before | last
    · have aligned := contains.aligned member before
      exact ⟨aligned.1, Nat.le_trans aligned.2.1 wider, aligned.2.2⟩
    · rw [List.mem_singleton.mp last]
      exact ⟨fieldAlign, larger, dvd⟩
  · intro member among
    rcases List.mem_append.mp among with before | last
    · exact Nat.le_trans (contains.inside member before) grown
    · rw [List.mem_singleton.mp last]
      exact inside
  · refine List.pairwise_append.mpr ⟨contains.apart, List.pairwise_singleton _ _, ?_⟩
    intro earlier before later last
    rw [List.mem_singleton.mp last]
    exact behind earlier before

/-- `ckdExtend` puts a member behind the others. -/
theorem extend (contains : struct.Contains members) (fieldAlign : Layout.isAlign field.align = true)
    (fieldNarrow : field.align < sizeRange) (fits : ckdExtend struct field = some (layout, offset)) :
    layout.Contains (members ++ [⟨offset, field⟩]) ∧ offset = roundUp struct.size field.align ∧
      layout.size = offset + field.size := by
  rw [ckdExtend_eq fieldAlign fieldNarrow contains.representable] at fits
  have up : struct.size ≤ roundUp struct.size field.align := le_roundUp (isAlign_pos fieldAlign)
  split at fits
  · rename_i small
    cases fits
    refine ⟨?_, rfl, rfl⟩
    have aligned : Layout.isAlign (max struct.align field.align) = true := by
      rcases max_choice struct.align field.align with same | same
      · rw [same]
        exact contains.isAlign
      · rw [same]
        exact fieldAlign
    exact contains.append aligned (max_lt contains.narrow fieldNarrow) small (le_max_left _ _)
      (Nat.le_trans up (Nat.le_add_right _ _)) fieldAlign (le_max_right _ _) (dvd_roundUp _ _) (Nat.le_refl _)
      (fun member inside => Nat.le_trans (contains.inside member inside) up)
  · cases fits

/-- A type that was put behind the others is one that a `size_t` can describe. -/
theorem extend_type (contains : struct.Contains members) (isType : field.isType = true)
    (fits : ckdExtend struct field = some (layout, offset)) :
    layout.Contains (members ++ [⟨offset, field⟩]) ∧ offset = roundUp struct.size field.align ∧
      layout.size = offset + field.size := by
  have fieldAlign := isType_align isType
  have small : field.size < sizeRange := by
    rcases Option.bind_eq_some_iff.mp fits with ⟨start, first, rest⟩
    rcases Option.bind_eq_some_iff.mp rest with ⟨size, second, same⟩
    exact Nat.lt_of_le_of_lt (ckdAdd_le second).2 (ckdAdd_lt second)
  exact contains.extend fieldAlign.1 (Nat.lt_of_le_of_lt fieldAlign.2 small) fits

/-- `ckdPad` keeps the members. -/
theorem pad (contains : struct.Contains members) (fits : ckdPad struct = some layout) :
    layout.Contains members ∧ layout.align = struct.align ∧ layout.align ∣ layout.size := by
  rw [ckdPad_eq contains.isAlign contains.narrow contains.representable] at fits
  split at fits
  · rename_i small
    cases fits
    refine ⟨⟨contains.isAlign, contains.narrow, small, contains.aligned, ?_, contains.apart⟩, rfl, dvd_roundUp _ _⟩
    exact fun member inside => Nat.le_trans (contains.inside member inside) (le_roundUp (isAlign_pos contains.isAlign))
  · cases fits

end Contains

/-- Blocks of this layout have room for the members, wherever they are. -/
structure Fits (node : Layout) (members : List Member) : Prop where
  isAlign : isAlign node.align = true
  tiles : node.align ∣ node.size
  representable : node.size < sizeRange
  larger : forall member, member ∈ members -> member.layout.align ≤ node.align
  within : forall member, member ∈ members -> forall base, (member.region base).Within ⟨base, node.size⟩
  apart : members.Pairwise fun earlier later => forall base, (earlier.region base).Apart (later.region base)
  aligned : forall member, member ∈ members -> forall base, node.align ∣ base -> member.layout.align ∣ base + member.offset

theorem Contains.fits (contains : struct.Contains members) (tiles : struct.align ∣ struct.size) : struct.Fits members := by
  refine ⟨contains.isAlign, tiles, contains.representable, ?_, ?_, ?_, ?_⟩
  · exact fun member inside => (contains.aligned member inside).2.1
  · intro member inside base
    have stops := contains.inside member inside
    unfold Region.Within Region.stop Member.region
    dsimp only
    omega
  · apply contains.apart.imp
    intro earlier later before base
    left
    unfold Region.stop Member.region
    dsimp only
    omega
  · intro member inside base on
    rcases contains.aligned member inside with ⟨isAlign, le, dvd⟩
    exact Nat.dvd_add (Nat.dvd_trans (isAlign_dvd_of_le isAlign contains.isAlign le) on) dvd

end Layout
end TerseDsa
