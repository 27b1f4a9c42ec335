import TerseDsa.Alloc.Parent
import Mathlib.Data.Set.Insert

namespace TerseDsa

open Foundation Run

/-!
# The contract of the hooks

What is documented of the five hooks is stated over a ledger: which blocks are
live in a state of the allocator, which alignments it was built to give, and
which of its states are good ones.  An honest parent meets that contract.
-/

/-- The blocks hold what they held. -/
def Intact (live : Set (Nat × Layout)) (before later : Bytes) : Prop :=
  forall block, block ∈ live -> forall addr, (Parent.region block).Covers addr -> later addr = before addr

/-- The first `count` bytes at `dst` are those that were at `src`. -/
def Carries (before later : Bytes) (src dst count : Nat) : Prop :=
  forall offset, offset < count -> later (dst + offset) = before (src + offset)

/-- A block that may be handed out beside the live ones. -/
structure Fresh (live : Set (Nat × Layout)) (addr : Nat) (layout : Layout) : Prop where
  real : 0 < addr
  room : addr + layout.size < sizeRange
  aligned : layout.align ∣ addr
  apart : forall block, block ∈ live -> Region.Apart ⟨addr, layout.size⟩ (Parent.region block)

namespace Intact

variable {live more : Set (Nat × Layout)} {before middle later : Bytes} {addr count : Nat} {layout : Layout}

theorem refl (live : Set (Nat × Layout)) (bytes : Bytes) : Intact live bytes bytes := fun _ _ _ _ => rfl

theorem trans (first : Intact live before middle) (second : Intact live middle later) :
    Intact live before later :=
  fun block inside addr covers => (second block inside addr covers).trans (first block inside addr covers)

theorem anti (intact : Intact live before later) (sub : more ⊆ live) : Intact more before later :=
  fun block inside => intact block (sub inside)

/-- The first bytes of a block that is kept. -/
theorem carries (intact : Intact live before later) (inside : (addr, layout) ∈ live)
    (short : count ≤ layout.size) : Carries before later addr addr count := by
  intro offset low
  apply intact (addr, layout) inside
  exact ⟨Nat.le_add_right _ _, Nat.add_lt_add_left (Nat.lt_of_lt_of_le low short) _⟩

/-- What is written apart from the blocks leaves them as they are. -/
theorem of_keeps {region : Region} (keeps : Bytes.Keeps before later region)
    (apart : forall block, block ∈ live -> region.Apart (Parent.region block)) : Intact live before later := by
  intro block inside addr covers
  exact keeps addr ((apart block inside).symm.not_covers covers)

end Intact

theorem Carries.trans {before middle later : Bytes} {src middle_ dst count : Nat}
    (first : Carries before middle src middle_ count) (second : Carries middle later middle_ dst count) :
    Carries before later src dst count :=
  fun offset low => (second offset low).trans (first offset low)

/-- What one keeps on an allocator whose states are `S`. -/
structure Ledger (S : Type) where
  live : S -> Set (Nat × Layout)
  gives : Nat -> Prop
  good : S -> Prop

namespace Ledger

variable {S : Type} [HasBytes S]

/-- The allocator handed a block out, or refused. -/
structure Grants (ledger : Ledger S) (layout : Layout) (before : S) (answer : Option Addr) (later : S) : Prop where
  good : ledger.good later
  intact : Intact (ledger.live before) (HasBytes.bytes before) (HasBytes.bytes later)
  outcome :
    match answer with
    | none => ledger.live later = ledger.live before
    | some addr => Fresh (ledger.live before) addr layout ∧
        ledger.live later = insert (addr, layout) (ledger.live before)

/-- The block has the new size, at the address of the answer, or is as it was. -/
structure Resizes (ledger : Ledger S) (ptr : Addr) (old : Layout) (newSize : Nat) (before : S)
    (answer : Option Addr) (later : S) : Prop where
  good : ledger.good later
  intact : Intact (ledger.live before \ {(ptr, old)}) (HasBytes.bytes before) (HasBytes.bytes later)
  outcome :
    match answer with
    | none => ledger.live later = ledger.live before ∧
        Intact (ledger.live before) (HasBytes.bytes before) (HasBytes.bytes later)
    | some addr => Fresh (ledger.live before \ {(ptr, old)}) addr ⟨newSize, old.align⟩ ∧
        ledger.live later = insert (addr, ⟨newSize, old.align⟩) (ledger.live before \ {(ptr, old)}) ∧
        Carries (HasBytes.bytes before) (HasBytes.bytes later) ptr addr (min old.size newSize)

/-- The block is no longer live. -/
structure Releases (ledger : Ledger S) (block : Nat × Layout) (before later : S) : Prop where
  good : ledger.good later
  intact : Intact (ledger.live before \ {block}) (HasBytes.bytes before) (HasBytes.bytes later)
  live : ledger.live later = ledger.live before \ {block}

/-- The documented contracts of the hooks, those that there are.  The owner of a
block may write into it as he likes. -/
structure Meets (ledger : Ledger S) (al : AlVtable S) : Prop where
  alloc : forall s layout, ledger.good s -> layout.Asked -> ledger.gives layout.align -> 0 < layout.size ->
    Ends (al.alloc layout) s (ledger.Grants layout s)
  allocZeroed : forall hook, al.allocZeroed = some hook -> forall s layout, ledger.good s -> layout.Asked ->
    ledger.gives layout.align -> 0 < layout.size -> Ends (hook layout) s fun answer later =>
      ledger.Grants layout s answer later ∧ forall addr, answer = some addr ->
        forall offset, offset < layout.size -> HasBytes.bytes later (addr + offset) = 0
  resize : forall hook, al.resize = some hook -> forall s ptr old newSize, ledger.good s ->
    (ptr, old) ∈ ledger.live s -> 0 < old.size -> 0 < newSize -> newSize < sizeRange ->
    Ends (hook ptr old newSize) s fun done later =>
      ledger.Resizes ptr old newSize s (if done = true then some ptr else none) later
  remap : forall hook, al.remap = some hook -> forall s ptr old newSize, ledger.good s ->
    (ptr, old) ∈ ledger.live s -> 0 < old.size -> 0 < newSize -> newSize < sizeRange ->
    Ends (hook ptr old newSize) s (ledger.Resizes ptr old newSize s)
  dealloc : forall s ptr layout, ledger.good s -> (ptr, layout) ∈ ledger.live s -> 0 < layout.size ->
    Ends (al.dealloc ptr layout) s fun _ later => ledger.Releases (ptr, layout) s later
  write : forall s block region content, ledger.good s -> block ∈ ledger.live s ->
    region.Within (Parent.region block) ->
    ledger.good (HasBytes.withBytes ((HasBytes.bytes s).overwrite region content) s) ∧
      ledger.live (HasBytes.withBytes ((HasBytes.bytes s).overwrite region content) s) = ledger.live s

end Ledger

/-! ## An honest parent is such an allocator -/

namespace Parent

/-- The blocks that a parent has out are live, each one once and apart from the others. -/
def ledger : Ledger Parent where
  live self := {block | block ∈ self.out}
  gives _ := True
  good self := self.out.Nodup ∧ self.out.Pairwise fun left right => (region left).Apart (region right)

variable {self : Parent} {out : List (Nat × Layout)} {block : Nat × Layout} {addr ptr newSize : Nat}
  {layout old : Layout}

theorem live_erase (nodup : out.Nodup) (block : Nat × Layout) :
    ({each | each ∈ out.erase block} : Set (Nat × Layout)) = {each | each ∈ out} \ {block} := by
  ext each
  exact (nodup.mem_erase_iff).trans and_comm

theorem live_cons (block : Nat × Layout) :
    ({each | each ∈ block :: out} : Set (Nat × Layout)) = insert block {each | each ∈ out} := by
  ext each
  exact List.mem_cons

theorem Honest.isFresh (honest : Honest out addr layout) : Fresh {each | each ∈ out} addr layout :=
  ⟨honest.real, honest.room, honest.aligned, honest.apart⟩

/-- A block handed out beside others is none of them. -/
theorem Honest.not_mem (honest : Honest out addr layout) (some_ : 0 < layout.size) : (addr, layout) ∉ out := by
  intro inside
  have apart := honest.apart (addr, layout) inside
  unfold Region.Apart region Region.stop at apart
  simp only at apart
  omega

/-- A block handed out beside the others keeps all of them apart. -/
theorem good_cons (nodup : out.Nodup)
    (apart : out.Pairwise fun left right => (region left).Apart (region right))
    (honest : Honest out addr layout) (some_ : 0 < layout.size) :
    ((addr, layout) :: out).Nodup ∧
      ((addr, layout) :: out).Pairwise fun left right => (region left).Apart (region right) :=
  ⟨List.nodup_cons.mpr ⟨honest.not_mem some_, nodup⟩, List.pairwise_cons.mpr ⟨honest.apart, apart⟩⟩

/-- What is written into one block leaves the others as they are. -/
theorem intact_erase {before later : Bytes} (good : ledger.good self) (isOut : block ∈ self.out)
    (keeps : Bytes.Keeps before later (region block)) :
    Intact (ledger.live self \ {block}) before later := by
  refine Intact.of_keeps keeps fun other inside => ?_
  exact Region.apart_of_pairwise region good.2 isOut inside.1 fun same => inside.2 same.symm

/-- A request is refused, or answered with a block apart from all that are out. -/
theorem grants_alloc (good : ledger.good self) (some_ : 0 < layout.size) :
    Ends (alloc layout) self (ledger.Grants layout self) := by
  simp only [alloc, ends_bind, ends_answer, Run.ends_get]
  cases (self.answers self.asked).addr with
  | none => exact (ends_pure _ _ _).mpr ⟨good, Intact.refl _ _, rfl⟩
  | some addr =>
      by_cases honest : Honest self.out addr layout
      · simp only [if_pos honest, ends_bind, Run.ends_set, ends_pure]
        refine ⟨good_cons good.1 good.2 honest some_, ?_, honest.isFresh, live_cons _⟩
        exact Intact.of_keeps (Bytes.keeps_overwrite _ _ _) honest.apart
      · simp only [if_neg honest, ends_pure]
        exact ⟨good, Intact.refl _ _, rfl⟩

/-- A block that is out stays where it is and gets the new size, or nothing happens. -/
theorem resizes_resize (good : ledger.good self) (isOut : (ptr, old) ∈ self.out) (some_ : 0 < newSize) :
    Ends (resize ptr old newSize) self fun done later =>
      ledger.Resizes ptr old newSize self (if done = true then some ptr else none) later := by
  simp only [resize, ends_bind, ends_answer, Run.ends_get, ends_require, isOut, true_and]
  by_cases honest : (self.answers self.asked).grants = true ∧
      Honest (self.out.erase (ptr, old)) ptr ⟨newSize, old.align⟩
  · rw [if_pos honest]
    simp only [ends_bind, Run.ends_set, ends_pure, if_true]
    have kept : Bytes.Keeps self.bytes (self.bytes.overwrite ⟨ptr + old.size, newSize - old.size⟩
        (self.answers self.asked).content) ⟨ptr + old.size, newSize - old.size⟩ := Bytes.keeps_overwrite _ _ _
    refine ⟨good_cons (good.1.erase _) (good.2.sublist List.erase_sublist) honest.2 some_, ?_, ?_, ?_, ?_⟩
    · intro other inside addr covers
      apply kept
      have isErased : other ∈ self.out.erase (ptr, old) := good.1.mem_erase_iff.mpr ⟨inside.2, inside.1⟩
      have outside := (honest.2.apart other isErased).symm.not_covers covers
      unfold Region.Covers Region.stop at outside ⊢
      simp only at outside ⊢
      omega
    · exact live_erase good.1 (ptr, old) ▸ honest.2.isFresh
    · exact (live_cons _).trans (congrArg _ (live_erase good.1 (ptr, old)))
    · intro offset low
      apply kept
      unfold Region.Covers
      simp only
      omega
  · rw [if_neg honest]
    exact (ends_pure _ _ _).mpr ⟨good, Intact.refl _ _, rfl, Intact.refl _ _⟩

/-- A block that is out moves with its bytes, or nothing happens. -/
theorem resizes_remap (good : ledger.good self) (isOut : (ptr, old) ∈ self.out) (some_ : 0 < newSize) :
    Ends (remap ptr old newSize) self (ledger.Resizes ptr old newSize self) := by
  simp only [remap, ends_bind, ends_answer, Run.ends_get, ends_require, isOut, true_and]
  cases (self.answers self.asked).addr with
  | none => exact (ends_pure _ _ _).mpr ⟨good, Intact.refl _ _, rfl, Intact.refl _ _⟩
  | some addr =>
      dsimp only
      by_cases honest : Honest (self.out.erase (ptr, old)) addr ⟨newSize, old.align⟩
      · rw [if_pos honest]
        simp only [ends_bind, Run.ends_set, ends_pure]
        refine ⟨good_cons (good.1.erase _) (good.2.sublist List.erase_sublist) honest some_, ?_, ?_, ?_, ?_⟩
        · have gone := intact_erase good isOut (Bytes.keeps_overwrite self.bytes (region (ptr, old))
            (self.answers self.asked).content)
          refine gone.trans ?_
          refine Intact.of_keeps (Bytes.keeps_overwrite _ _ _) fun other inside => ?_
          exact honest.apart other (good.1.mem_erase_iff.mpr ⟨inside.2, inside.1⟩)
        · exact live_erase good.1 (ptr, old) ▸ honest.isFresh
        · exact (live_cons _).trans (congrArg _ (live_erase good.1 (ptr, old)))
        · intro offset low
          have covers : Region.Covers ⟨addr, newSize⟩ (addr + offset) :=
            ⟨Nat.le_add_right _ _, Nat.add_lt_add_left (Nat.lt_of_lt_of_le low (Nat.min_le_right _ _)) _⟩
          change Bytes.overwrite _ _ _ _ = _
          rw [Bytes.overwrite, if_pos covers, Nat.add_sub_cancel_left, movedBytes, if_pos low]
          rfl
      · rw [if_neg honest]
        exact (ends_pure _ _ _).mpr ⟨good, Intact.refl _ _, rfl, Intact.refl _ _⟩

theorem releases_dealloc (good : ledger.good self) (isOut : (ptr, layout) ∈ self.out) :
    Ends (dealloc ptr layout) self fun _ later => ledger.Releases (ptr, layout) self later := by
  simp only [dealloc, ends_bind, ends_answer, Run.ends_get, ends_require, isOut, Run.ends_set, true_and]
  refine ⟨⟨good.1.erase _, good.2.sublist List.erase_sublist⟩, ?_, live_erase good.1 _⟩
  exact intact_erase good isOut (Bytes.keeps_overwrite _ _ _)

/-- An honest parent meets the contract of its hooks, whatever its script says. -/
theorem meets : ledger.Meets toAl where
  alloc _ _ good _ _ some_ := grants_alloc good some_
  allocZeroed _ impossible := nomatch impossible
  resize := by
    rintro hook ⟨⟩ s ptr old newSize good isOut _ some_ _
    exact resizes_resize good isOut some_
  remap := by
    rintro hook ⟨⟩ s ptr old newSize good isOut _ some_ _
    exact resizes_remap good isOut some_
  dealloc _ _ _ good isOut _ := releases_dealloc good isOut
  write _ _ _ _ good _ _ := ⟨good, rfl⟩

end Parent
end TerseDsa
