import TerseDsa.Core.Members
import TerseDsa.HSet.Model
import TerseDsa.List.Model

namespace TerseDsa

open Foundation

/-!
# Nodes of maps, sets and lists

A node is a struct with the key and the value, or the elem, as its next members.
A set's map has an empty value, which is placed behind the key and takes no room.
-/

variable {key val elem node : Layout} {keyOffset valOffset : Nat}

/-! ## Maps and sets -/

namespace HMap

theorem headerLayout_contains : headerLayout.Contains [⟨0, headerLayout⟩] :=
  Layout.Contains.first (by decide) (by decide) (by decide)

/-- The node of a map has room for a key and a value. -/
theorem nodeLayout_fits (keyType : key.isType = true) (valType : val.isType = true)
    (layout : nodeLayout key val = some (node, keyOffset, valOffset)) :
    node.Fits [⟨0, headerLayout⟩, ⟨keyOffset, key⟩, ⟨valOffset, val⟩] := by
  rw [nodeLayout] at layout
  rcases Option.bind_eq_some_iff.mp layout with ⟨⟨header, start⟩, first, rest⟩
  dsimp only at rest
  rw [if_pos (Layout.size_pos valType)] at rest
  rcases Option.bind_eq_some_iff.mp rest with ⟨⟨both, behind⟩, second, rest⟩
  rcases Option.bind_eq_some_iff.mp rest with ⟨padded, third, same⟩
  cases same
  have contains := (headerLayout_contains.extend_type keyType first).1.extend_type valType second
  have whole := contains.1.pad third
  exact whole.1.fits whole.2.2

/-- Without a value the node has room for the key, and the place behind it is inside. -/
theorem nodeLayout_empty (keyType : key.isType = true) (empty : val.size = 0)
    (layout : nodeLayout key val = some (node, keyOffset, valOffset)) :
    node.Contains [⟨0, headerLayout⟩, ⟨keyOffset, key⟩] ∧ node.align ∣ node.size ∧ valOffset = keyOffset + key.size ∧
      key.align ∣ keyOffset := by
  rw [nodeLayout] at layout
  rcases Option.bind_eq_some_iff.mp layout with ⟨⟨header, start⟩, first, rest⟩
  dsimp only at rest
  rw [if_neg (by omega)] at rest
  rcases Option.bind_eq_some_iff.mp rest with ⟨padded, second, same⟩
  cases same
  have contains := headerLayout_contains.extend_type keyType first
  have whole := contains.1.pad second
  exact ⟨whole.1, whole.2.2, rfl, contains.2.1 ▸ dvd_roundUp _ _⟩

/-- An empty value that needs no stricter alignment than the key stands behind it. -/
theorem nodeLayout_fits_empty (keyType : key.isType = true) (empty : val.size = 0)
    (valAlign : Layout.isAlign val.align = true) (le : val.align ≤ key.align)
    (layout : nodeLayout key val = some (node, keyOffset, valOffset)) :
    node.Fits [⟨0, headerLayout⟩, ⟨keyOffset, key⟩, ⟨valOffset, val⟩] := by
  rcases nodeLayout_empty keyType empty layout with ⟨contains, tiles, rfl, starts⟩
  have keyAligned := contains.aligned ⟨keyOffset, key⟩ (List.mem_cons_of_mem _ List.mem_cons_self)
  have keyInside : keyOffset + key.size ≤ node.size :=
    contains.inside ⟨keyOffset, key⟩ (List.mem_cons_of_mem _ List.mem_cons_self)
  have headerBefore : 0 + headerLayout.size ≤ keyOffset :=
    (List.pairwise_cons.mp contains.apart).1 ⟨keyOffset, key⟩ List.mem_cons_self
  have ends_ : key.align ∣ keyOffset + key.size := Nat.dvd_add starts (Layout.isType_dvd keyType)
  have dvd : val.align ∣ keyOffset + key.size := Nat.dvd_trans (Layout.isAlign_dvd_of_le valAlign keyAligned.1 le) ends_
  have behind : forall member, member ∈ ([⟨0, headerLayout⟩, ⟨keyOffset, key⟩] : List Layout.Member) ->
      member.offset + member.layout.size ≤ keyOffset + key.size := by
    intro member inside
    rcases List.mem_cons.mp inside with rfl | last
    · exact Nat.le_trans headerBefore (Nat.le_add_right _ _)
    · rw [List.mem_singleton.mp last]
  have placed := contains.append contains.isAlign contains.narrow contains.representable (Nat.le_refl _) (Nat.le_refl _)
    valAlign (Nat.le_trans le keyAligned.2.1) dvd (by rw [empty]; exact keyInside) behind
  exact placed.fits tiles

end HMap

/-! ## Lists -/

namespace TdaList

/-- `TDA_LAYOUT_OF(tda_ListNode)`: two pointers. -/
def linksLayout : Layout := ⟨2 * Layout.ofPointer.size, Layout.ofPointer.align⟩

/-- `elem_offset`. -/
def elemOffset (elem : Layout) : Nat := alignUp linksLayout.size elem.align

theorem linksLayout_contains : linksLayout.Contains [⟨0, linksLayout⟩] :=
  Layout.Contains.first (by decide) (by decide) (by decide)

/-- The elem is where the layout of the node has it, and rounding up its offset does not overflow. -/
theorem ckdNodeLayout_fits (elemType : elem.isType = true) (layout : ckdNodeLayout elem = some node) :
    node.Fits [⟨0, linksLayout⟩, ⟨elemOffset elem, elem⟩] ∧ linksLayout.size ≤ sizeMax - (elem.align - 1) ∧
      exists links, linksLayout.ckdExtend elem = some (links, elemOffset elem) ∧ links.ckdPad = some node := by
  rw [ckdNodeLayout] at layout
  rcases Option.bind_eq_some_iff.mp layout with ⟨⟨links, start⟩, first, second⟩
  rcases linksLayout_contains.extend_type elemType first with ⟨contains, starts, size⟩
  have whole := contains.pad second
  have elemAlign := Layout.isType_align elemType
  have up : linksLayout.size ≤ roundUp linksLayout.size elem.align := le_roundUp (Layout.isAlign_pos elemAlign.1)
  have small := contains.representable
  have room : linksLayout.size ≤ sizeMax - (elem.align - 1) := by
    unfold sizeMax
    omega
  have same : start = elemOffset elem := by
    rw [starts, elemOffset, alignUp_eq elemAlign.1 (by omega) room]
  subst same
  exact ⟨whole.1.fits whole.2.2, room, links, first, second⟩

end TdaList

/-! ## Every node -/

/-- Nodes have room for what is copied into them, and a size that is too large is noticed. -/
theorem nodes_fit :
    (forall key val node : Layout, forall keyOffset valOffset : Nat, key.isType = true ->
      (val.isType = true ∨ val = HSet.noVal) -> HMap.nodeLayout key val = some (node, keyOffset, valOffset) ->
        node.Fits [⟨0, HMap.headerLayout⟩, ⟨keyOffset, key⟩, ⟨valOffset, val⟩]) ∧
    (forall key val node : Layout, forall keyOffset valOffset : Nat, key.isType = true -> val.size = 0 ->
      Layout.isAlign val.align = true -> HMap.nodeLayout key val = some (node, keyOffset, valOffset) ->
        node.Fits [⟨0, HMap.headerLayout⟩, ⟨keyOffset, key⟩] ∧ valOffset = keyOffset + key.size ∧
          (val.align ≤ key.align -> node.Fits [⟨0, HMap.headerLayout⟩, ⟨keyOffset, key⟩, ⟨valOffset, val⟩])) ∧
    (forall elem node : Layout, elem.isType = true -> TdaList.ckdNodeLayout elem = some node ->
      node.Fits [⟨0, TdaList.linksLayout⟩, ⟨TdaList.elemOffset elem, elem⟩] ∧
        TdaList.linksLayout.size ≤ sizeMax - (elem.align - 1) ∧
        exists links, TdaList.linksLayout.ckdExtend elem = some (links, TdaList.elemOffset elem) ∧
          links.ckdPad = some node) ∧
    (forall (elem : Layout) (count : Nat), (elem.ckdArray count = none <-> sizeRange ≤ elem.size * count) ∧
      (elem.size * count < sizeRange -> elem.ckdArray count = some ⟨elem.size * count, elem.align⟩)) ∧
    (forall (self field : Layout) (offset : Nat), self.size < sizeRange -> field.align < sizeRange ->
      Layout.isAlign field.align = true -> IsLeast {place | self.size ≤ place ∧ field.align ∣ place} offset ->
        (self.ckdExtend field = none <-> sizeRange ≤ offset + field.size) ∧
        (offset + field.size < sizeRange ->
          self.ckdExtend field = some (⟨offset + field.size, max self.align field.align⟩, offset))) ∧
    (forall (self : Layout) (size : Nat), self.size < sizeRange -> self.align < sizeRange ->
      Layout.isAlign self.align = true -> IsLeast {total | self.size ≤ total ∧ self.align ∣ total} size ->
        (self.ckdPad = none <-> sizeRange ≤ size) ∧
        (size < sizeRange -> self.ckdPad = some ⟨size, self.align⟩)) := by
  refine ⟨?_, ?_, fun elem node => TdaList.ckdNodeLayout_fits, ?_, ?_, ?_⟩
  · rintro key val node keyOffset valOffset keyType (valType | rfl) layout
    · exact HMap.nodeLayout_fits keyType valType layout
    · exact HMap.nodeLayout_fits_empty keyType rfl (by decide) (Layout.isAlign_pos (Layout.isType_align keyType).1) layout
  · intro key val node keyOffset valOffset keyType empty valAlign layout
    rcases HMap.nodeLayout_empty keyType empty layout with ⟨contains, tiles, same, _⟩
    exact ⟨contains.fits tiles, same, fun le => HMap.nodeLayout_fits_empty keyType empty valAlign le layout⟩
  · intro elem count
    rw [Layout.ckdArray_eq]
    exact none_iff_of_ite
  · intro self field offset inside representable isAlign least
    rw [Layout.ckdExtend_eq isAlign representable inside,
      least.unique (isLeast_roundUp (Layout.isAlign_pos isAlign))]
    exact none_iff_of_ite
  · intro self size inside representable isAlign least
    rw [Layout.ckdPad_eq isAlign representable inside, least.unique (isLeast_roundUp (Layout.isAlign_pos isAlign))]
    exact none_iff_of_ite

theorem nodes_fit_small :
    (⟨24, 8⟩ : Layout).Fits [⟨0, HMap.headerLayout⟩, ⟨16, ⟨4, 4⟩⟩, ⟨20, ⟨1, 1⟩⟩] ∧
      (⟨24, 8⟩ : Layout).Fits [⟨0, HMap.headerLayout⟩, ⟨16, ⟨4, 4⟩⟩, ⟨20, HSet.noVal⟩] ∧
      (⟨64, 32⟩ : Layout).Fits [⟨0, TdaList.linksLayout⟩, ⟨TdaList.elemOffset ⟨32, 32⟩, ⟨32, 32⟩⟩] :=
  ⟨nodes_fit.1 ⟨4, 4⟩ ⟨1, 1⟩ ⟨24, 8⟩ 16 20 (by decide) (Or.inl (by decide)) (by decide),
    nodes_fit.1 ⟨4, 4⟩ HSet.noVal ⟨24, 8⟩ 16 20 (by decide) (Or.inr rfl) (by decide),
    (nodes_fit.2.2.1 ⟨32, 32⟩ ⟨64, 32⟩ (by decide) (by decide)).1⟩

end TerseDsa
