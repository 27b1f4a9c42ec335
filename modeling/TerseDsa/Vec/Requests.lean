import TerseDsa.Alloc.Growth
import TerseDsa.Vec.Operations

namespace TerseDsa

open Foundation Run

/-!
# What a vec asks for

The allocator is asked for a block where the vec has to grow, to be shrunk or
to be copied to, and the operations do the rest without it.
-/

namespace Vec

variable {α C : Type} {heap : VecMem α} {self : Vec} {elems : List α} {newCap newLen idx count need : Nat}

/-- The request of a vec for a block of `cap` elems. -/
def request (α : Type) (self : Vec) (cap : Nat) : Run (VecMem α) (Option Addr) :=
  realloc self.al self.data ⟨self.elem.size * self.cap, self.elem.align⟩ (self.elem.size * cap)
    (List.replicate cap (none : Option α)) (fitted cap)

/-- A vec as its growth sees it. -/
abbrev grower (α : Type) : Grower (List (Option α)) Vec := ⟨fun vec => vec.elem.size, len, cap, data, request α⟩

/-- The vec has asked for room for so many elems, or for none if it had the room. -/
abbrev Grown (self : Vec) (need : Nat) (heap : VecMem α) (st : Status) (after : Vec) (later : VecMem α) : Prop :=
  (grower α).Grown self need heap st after later

theorem Holds.sized (holds : Holds heap.blocks self elems) : (grower α).Sized self := by
  rcases holds.cells with ⟨spare, held⟩
  exact ⟨held.size_pos, held.fits, holds.load⟩

theorem settles_setCap (sized : (grower α).Sized self) (heap : VecMem α) (newCap : Nat) :
    (grower α).Settles self newCap heap (setCap α self newCap) := by
  have block : blockLayout self = ⟨self.elem.size * self.cap, self.elem.align⟩ := by
    unfold blockLayout Span.elemsLayout
    rw [TerseDsa.wrapMul_eq sized.fits]
  simp only [Grower.Settles, setCap, allows_bind, allows_require]
  intro _ _
  rcases self.elem.ckdArray_cases newCap with ⟨none_, overflow⟩ | ⟨layout, fits⟩
  · simp only [none_, allows_pure]
    exact ⟨fun _ => trivial, [], (fun impossible => by cases impossible), Growth.overflowed overflow⟩
  · simp only [layout, allows_bind, block]
    intro answer mid answered
    cases answer with
    | none =>
        refine (allows_pure _ _ _).mpr ⟨fun _ => rfl, [newCap], (fun impossible => by cases impossible), ?_⟩
        exact Growth.denied sized.size fits answered
    | some ptr =>
        refine (allows_pure _ _ _).mpr ⟨fun impossible => absurd rfl impossible, [newCap],
          fun _ => List.cons_ne_nil _ _, ?_⟩
        exact Growth.granted sized.size fits answered rfl

theorem allows_reserveFor (sized : (grower α).Sized self) :
    Allows (reserveFor α self newLen) heap fun result later => Grown self newLen heap result.1 result.2 later := by
  unfold reserveFor
  by_cases there : newLen ≤ self.cap
  · rw [if_pos there, allows_pure]
    exact sized.roomy there rfl
  · rw [if_neg there]
    exact Grower.allows_eager (fun mid newCap _ => settles_setCap sized mid newCap) (Nat.lt_of_not_le there) _

theorem allows_reserveOne (sized : (grower α).Sized self) :
    Allows (reserveOne α self) heap fun result later =>
      Grown self (self.len + 1) heap result.1 result.2 later :=
  Grower.allows_reserveOne sized (allows_reserveFor sized)

/-! ## What asks for nothing -/

theorem quiet_elemsIn (self : Vec) (bytes : Nat) : Heap.Quiet (elemsIn self bytes : Run (VecMem α) Nat) :=
  (Heap.Quiet.of_require _).bind fun _ => Heap.Quiet.of_pure _

theorem quiet_readElem (self : Vec) (idx : Nat) : Heap.Quiet (readElem self idx : Run (VecMem α) α) :=
  (Slice.quiet_read _ _).bind fun _ => Heap.Quiet.of_demand _

theorem quiet_writeElem (self : Vec) (idx : Nat) (val : α) : Heap.Quiet (writeElem self idx val) :=
  Slice.quiet_write _ _ _

theorem quiet_copyElem (self : Vec) (dst src : Nat) : Heap.Quiet (copyElem α self dst src) :=
  (Heap.Quiet.of_require _).bind fun _ => (quiet_readElem self src).bind fun val => quiet_writeElem self dst val

theorem quiet_readElems (self : Vec) (idx bytes : Nat) :
    Heap.Quiet (readElems self idx bytes : Run (VecMem α) (List α)) :=
  (quiet_elemsIn self bytes).bind fun _ => (Slice.quiet_readRun _ _ _).bind fun _ => Heap.Quiet.of_demand _

theorem quiet_writeElems (self : Vec) (idx : Nat) (vals : List α) (bytes : Nat) :
    Heap.Quiet (writeElems self idx vals bytes) :=
  (quiet_elemsIn self bytes).bind fun _ => (Heap.Quiet.of_require _).bind fun _ => Slice.quiet_writeRun _ _ _

theorem quiet_moveElems (self : Vec) (dst src bytes : Nat) : Heap.Quiet (moveElems α self dst src bytes) :=
  (quiet_readElems self src bytes).bind fun vals => quiet_writeElems self dst vals bytes

theorem quiet_operand (self : Vec) (val : Operand α) (idx : Option Nat) : Heap.Quiet (operand self val idx) := by
  cases idx with
  | some idx => exact quiet_readElem self idx
  | none =>
      cases val with
      | outside val => exact Heap.Quiet.of_pure val
      | slot slot => exact Heap.Quiet.of_failure

theorem allows_aliasIdx {val : Operand α} {S : Type} {s : S} {post : Option Nat -> S -> Prop}
    (any : forall idx, post idx s) : Allows (aliasIdx self val) s post := by
  cases val with
  | outside val => exact (allows_pure _ _ _).mpr (any none)
  | slot slot =>
      simp only [aliasIdx, allows_bind, allows_require, allows_pure]
      exact fun _ _ => any (some slot)

/-! ## The operations -/

theorem allows_openGap (sized : (grower α).Sized self) :
    Allows (openGap α self idx count) heap fun result later =>
      Grown self (self.len + count) heap result.1 result.2 later := by
  simp only [openGap, allows_bind, allows_require]
  intro _
  by_cases fits : self.len + count < sizeRange
  · simp only [ckdAdd, if_pos fits]
    refine Grower.allows_then (allows_reserveFor sized) (fun _ _ wrong => if_pos wrong) fun grown mid => ?_
    by_cases tail : grown.len - idx > 0
    · simp only [Grower.Fills, if_granted, if_pos tail, allows_bind]
      refine (quiet_moveElems grown _ _ _).allows fun _ later same => ?_
      simp only [allows_pure]
      exact ⟨trivial, trivial, trivial, same⟩
    · simp only [Grower.Fills, if_granted, if_neg tail, allows_pure]
      exact ⟨trivial, trivial, trivial, trivial⟩
  · simp only [ckdAdd, if_neg fits, allows_pure]
    exact Grower.overflowed ((Nat.le_of_not_lt fits).trans (Nat.le_mul_of_pos_left _ sized.size))

theorem allows_insertRaw (sized : (grower α).Sized self) {src : List α} :
    Allows (insertRaw self idx src) heap fun result later =>
      Grown self (self.len + src.length) heap result.1 result.2 later := by
  unfold insertRaw
  refine Grower.allows_insertRaw sized (allows_openGap sized) (fun _ _ wrong => if_pos wrong) fun grown mid => ?_
  simp only [Grower.Fills, if_granted, allows_bind]
  refine (quiet_writeElems grown _ _ _).allows fun _ later same => ?_
  simp only [assertVec, allows_require, allows_pure]
  exact fun _ => ⟨trivial, trivial, trivial, same⟩

theorem allows_push (sized : (grower α).Sized self) {val : Operand α} :
    Allows (push self val) heap fun result later => Grown self (self.len + 1) heap result.1 result.2 later := by
  simp only [push, assertVec]
  rw [allows_bind, allows_require]
  intro _
  rw [allows_bind]
  refine allows_aliasIdx fun idx => ?_
  refine Grower.allows_then (allows_reserveOne sized) (fun _ _ wrong => if_pos wrong) fun grown mid => ?_
  simp only [Grower.Fills, if_granted, allows_bind]
  refine (quiet_operand grown val idx).allows fun src read same => ?_
  refine (quiet_writeElem grown _ src).allows fun _ later still => ?_
  simp only [allows_require, allows_pure]
  exact fun _ => ⟨trivial, trivial, trivial, still.trans same⟩

theorem allows_addElem (sized : (grower α).Sized self) {val : α} :
    Allows (addElem self val) heap fun result later => Grown self (self.len + 1) heap result.1 result.2 later := by
  simp only [addElem, addOne, assertVec, allows_bind, allows_require]
  intro _
  refine (allows_reserveOne sized).mono ?_
  rintro ⟨st, grown⟩ mid growth
  by_cases ok : st = .ok
  · subst ok
    simp only [if_granted, allows_bind, allows_require, allows_pure]
    intro _
    refine (quiet_writeElem _ _ val).allows fun _ later same => ?_
    rcases growth with ⟨made, growth, roomy⟩
    exact ⟨made, growth.stays same, roomy⟩
  · simp only [ne_eq, ok, not_false_eq_true, if_true, allows_pure]
    exact growth

theorem allows_insert (sized : (grower α).Sized self) {val : Operand α} :
    Allows (insert self idx val) heap fun result later =>
      Grown self (self.len + 1) heap result.1 result.2 later := by
  simp only [insert, assertVec]
  rw [allows_bind, allows_require]
  intro _
  rw [allows_bind, allows_require]
  intro _
  rw [allows_bind]
  refine allows_aliasIdx fun src => ?_
  cases src with
  | none =>
      cases val with
      | outside val => exact allows_insertRaw sized
      | slot slot =>
          intro _ _ impossible
          cases impossible
  | some src =>
      refine Grower.allows_then (allows_openGap sized) (fun _ _ wrong => if_pos wrong) fun grown mid => ?_
      simp only [Grower.Fills, if_granted, allows_bind]
      refine (quiet_copyElem grown _ _).allows fun _ later same => ?_
      simp only [allows_require, allows_pure]
      exact fun _ => ⟨trivial, trivial, trivial, same⟩

theorem allows_insertSpan (sized : (grower α).Sized self) {src : SpanView α} :
    Allows (insertSpan self idx src) heap fun result later =>
      Grown self (self.len + src.elems.length) heap result.1 result.2 later := by
  simp only [insertSpan, assertVec, allows_bind, allows_require]
  exact fun _ _ _ => allows_insertRaw sized

theorem allows_extend (sized : (grower α).Sized self) {src : SpanView α} :
    Allows (extend self src) heap fun result later =>
      Grown self (self.len + src.elems.length) heap result.1 result.2 later := by
  simp only [extend, assertVec, allows_bind, allows_require]
  exact fun _ _ => allows_insertSpan sized

theorem allows_resize (sized : (grower α).Sized self) {zero : α} :
    Allows (resize zero self newLen) heap fun result later =>
      Grown self newLen heap result.1 result.2 later := by
  simp only [resize, assertVec]
  rw [allows_bind, allows_require]
  intro _
  by_cases fewer : newLen ≤ self.len
  · simp only [if_pos fewer, allows_bind, allows_require, allows_pure]
    exact fun _ => ⟨[], Growth.enough sized.size sized.fits (fewer.trans sized.load) rfl, fun _ _ => rfl⟩
  · rw [if_neg fewer]
    refine Grower.allows_then (allows_reserveFor sized) (fun _ _ wrong => if_pos wrong) fun grown mid => ?_
    simp only [Grower.Fills, if_granted, allows_bind]
    refine (quiet_writeElems grown _ _ _).allows fun _ later same => ?_
    simp only [allows_require, allows_pure]
    exact fun _ => ⟨trivial, trivial, trivial, same⟩

theorem allows_reserve (sized : (grower α).Sized self) :
    Allows (reserve α self newCap) heap fun result later => Grown self newCap heap result.1 result.2 later := by
  simp only [reserve, assertVec, allows_bind, allows_require]
  intro _
  by_cases there : newCap ≤ self.cap
  · rw [if_pos there, allows_pure]
    exact sized.roomy there rfl
  · simp only [if_neg there, allows_bind]
    refine ((settles_setCap sized heap newCap).grows (Nat.lt_of_not_le there)).mono fun result later growth => ?_
    simp only [allows_require, allows_pure]
    exact fun _ => growth

theorem allows_shrinkToFit (sized : (grower α).Sized self) :
    Allows (shrinkToFit α self) heap fun result later => Grown self self.len heap result.1 result.2 later := by
  simp only [shrinkToFit, assertVec, allows_bind, allows_require]
  intro _
  by_cases full : self.len = self.cap
  · rw [if_pos full, allows_pure]
    exact sized.roomy sized.load rfl
  · rw [if_neg full]
    by_cases empty : self.len = 0
    · simp only [if_pos empty, releaseData, allows_bind]
      refine (quiet_dealloc _ _ _).allows fun _ later same => ?_
      simp only [allows_require, allows_pure]
      refine fun _ => ⟨[], Growth.enough sized.size ?_ (Nat.le_of_eq empty) same, fun _ _ => rfl⟩
      exact Nat.lt_of_le_of_lt (Nat.zero_le _) sized.fits
    · simp only [if_neg empty, allows_bind]
      refine (settles_setCap sized heap self.len).mono ?_
      rintro ⟨st, after⟩ later ⟨_, made, _, growth⟩
      simp only [allows_require, allows_pure]
      exact fun _ => ⟨made, growth, fun more => absurd more (Nat.lt_irrefl _)⟩

theorem allows_copyOver (sized : (grower α).Sized self) (other : Vec) :
    Allows (copyOver α self other) heap fun result later =>
      Grown self other.len heap result.1 result.2 later := by
  unfold copyOver
  refine Grower.allows_then (allows_reserve sized) (fun _ _ wrong => if_pos wrong) fun grown mid => ?_
  by_cases nothing : other.len > 0
  · simp only [Grower.Fills, if_granted, if_pos nothing, allows_bind, allows_require]
    intro _
    refine (quiet_readElems other _ _).allows fun vals read same => ?_
    refine (quiet_writeElems grown _ vals _).allows fun _ later still => ?_
    simp only [assertVec, allows_require, allows_pure]
    exact fun _ => ⟨trivial, trivial, trivial, still.trans same⟩
  · simp only [Grower.Fills, if_granted, if_neg nothing, assertVec, allows_bind, allows_require, allows_pure]
    exact fun _ => ⟨trivial, trivial, trivial, trivial⟩

/-! ## The constructors -/

variable {elem : Layout} {al : Al}

theorem allows_initImpl (len cap : Nat) :
    Allows (initImpl (none : Option α) len cap elem al) heap fun result later =>
      result.1 ≠ .ok -> Refusal (firstRequest α elem al) elem.size cap heap later := by
  unfold initImpl init
  simp only [allows_bind, allows_require, allows_pure]
  refine fun _ _ _ => allows_first ?_ fun ptr mid => ?_
  all_goals
    simp only [assertVec, allows_bind, allows_require, allows_pure]
    exact fun _ => trivial

theorem allows_fromImpl (data : Nat -> Run (VecMem α) (List α)) (len : Nat) :
    Allows (fromImpl data len elem al) heap fun result later =>
      result.1 ≠ .ok -> Refusal (firstRequest α elem al) elem.size len heap later := by
  refine allows_written (allows_initImpl len len) (fun _ _ wrong => if_pos wrong) fun out mid => ?_
  simp only [if_granted, allows_bind]
  intro obj mid _
  by_cases some_ : len > 0
  · simp only [if_pos some_, allows_bind, allows_pure]
    exact fun _ _ _ _ _ _ => trivial
  · simp only [if_neg some_, allows_pure]

theorem allows_copyWith :
    Allows (copyWith α self al) heap fun result later =>
      result.1 ≠ .ok -> Refusal (firstRequest α self.elem al) self.elem.size self.len heap later := by
  simp only [copyWith, toSpan, Span.assertSpan, assertVec, allows_bind, allows_require, allows_pure]
  exact fun _ _ _ _ _ _ => allows_fromImpl _ _

/-! ## What an operation needs -/

/-- How many elems an operation asks room for. -/
def Op.required (vec : Vec) : Op α C -> Option Nat
  | push _ | addElem _ | insert .. => some (vec.len + 1)
  | insertSpan _ src | extend src => some (vec.len + src.elems.length)
  | resize newLen => some newLen
  | reserve newCap => some newCap
  | shrinkToFit => some vec.len
  | _ => none

theorem Op.allows_run (op : Op α C) (sized : (grower α).Sized self) (zero : α) (needs : op.required self = some need) :
    Allows (op.run zero self) heap fun result later => Grown self need heap result.1 result.2.2 later := by
  cases op with
  | push val =>
      cases needs
      exact Grower.allows_handing (allows_push sized)
  | addElem val =>
      cases needs
      exact Grower.allows_handing (allows_addElem sized)
  | insert idx val =>
      cases needs
      exact Grower.allows_handing (allows_insert sized)
  | insertSpan idx src =>
      cases needs
      exact Grower.allows_handing (allows_insertSpan sized)
  | extend src =>
      cases needs
      exact Grower.allows_handing (allows_extend sized)
  | resize newLen =>
      cases needs
      exact Grower.allows_handing (allows_resize sized)
  | reserve newCap =>
      cases needs
      exact Grower.allows_handing (allows_reserve sized)
  | shrinkToFit =>
      cases needs
      exact Grower.allows_handing (allows_shrinkToFit sized)
  | _ => cases needs

end Vec
end TerseDsa
