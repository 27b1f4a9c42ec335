import TerseDsa.Alloc.Growth
import TerseDsa.Deque.Operations

namespace TerseDsa

open Foundation Run

/-!
# What a deque asks for

The allocator is asked for a block where the deque has to grow, to be shrunk or
to be copied to, and the operations do the rest without it.
-/

namespace Deque

variable {α C : Type} {heap : DequeMem α} {self : Deque} {elems : List α} {newCap newLen idx count need : Nat}

/-- The request of a deque for a block of `cap` elems. -/
def request (α : Type) (self : Deque) (cap : Nat) : Run (DequeMem α) (Option Addr) :=
  alloc self.al ⟨self.elem.size * cap, self.elem.align⟩ (List.replicate cap (none : Option α))

/-- A deque as its growth sees it. -/
abbrev grower (α : Type) : Grower (List (Option α)) Deque :=
  ⟨fun deque => deque.elem.size, len, cap, data, request α⟩

/-- The deque has asked for room for so many elems, or for none if it had the room. -/
abbrev Grown (self : Deque) (need : Nat) (heap : DequeMem α) (st : Status) (after : Deque) (later : DequeMem α) :
    Prop :=
  (grower α).Grown self need heap st after later

theorem Holds.sized (holds : Holds heap.blocks self elems) : (grower α).Sized self := by
  rcases holds.ring with ⟨view, ring, _⟩
  exact ⟨ring.elemSize, ring.fits, holds.load⟩

/-! ## What asks for nothing -/

theorem quiet_readRun (data : Option Addr) (slot count : Nat) :
    Heap.Quiet (readRun data slot count : Run (DequeMem α) (List (Option α))) :=
  (Heap.Quiet.of_demand _).bind fun _ => (Heap.Quiet.read _).bind fun _ =>
    (Heap.Quiet.of_require _).bind fun _ => Heap.Quiet.of_pure _

theorem quiet_writeRun (data : Option Addr) (slot : Nat) (vals : List (Option α)) :
    Heap.Quiet (writeRun data slot vals) :=
  (Heap.Quiet.of_demand _).bind fun _ => (Heap.Quiet.read _).bind fun _ =>
    (Heap.Quiet.of_require _).bind fun _ => Heap.Quiet.write _ _

theorem quiet_fillRun (data : Option Addr) (vals : List (Option α)) : Heap.Quiet (fillRun data vals) :=
  (quiet_writeRun data 0 vals).ite (Heap.Quiet.of_pure ())

theorem quiet_readSlot (data : Option Addr) (slot : Nat) :
    Heap.Quiet (readSlot data slot : Run (DequeMem α) (Option α)) :=
  (Heap.Quiet.of_demand _).bind fun _ => (Heap.Quiet.read _).bind fun _ => Heap.Quiet.of_demand _

theorem quiet_writeSlot (data : Option Addr) (slot : Nat) (val : Option α) : Heap.Quiet (writeSlot data slot val) :=
  (Heap.Quiet.of_demand _).bind fun _ => (Heap.Quiet.read _).bind fun _ =>
    (Heap.Quiet.of_require _).bind fun _ => Heap.Quiet.write _ _

theorem quiet_elemAt (self : Deque) (idx : Nat) : Heap.Quiet (elemAt self idx : Run (DequeMem α) (Option α)) :=
  (Heap.Quiet.of_require _).bind fun _ => quiet_readSlot _ _

theorem quiet_setElemAt (self : Deque) (idx : Nat) (val : Option α) : Heap.Quiet (setElemAt self idx val) :=
  (Heap.Quiet.of_require _).bind fun _ => quiet_writeSlot _ _ _

theorem quiet_moveElem (self : Deque) (dst src : Nat) : Heap.Quiet (moveElem α self dst src) :=
  (Heap.Quiet.of_require _).bind fun _ => (quiet_elemAt self src).bind fun val => quiet_setElemAt self dst val

theorem quiet_moveElems (self : Deque) (dst src count : Nat) : Heap.Quiet (moveElems α self dst src count) :=
  (Heap.Quiet.countUp (fun _ _ => quiet_moveElem self _ _) _ _ _).ite
    (Heap.Quiet.countUp (fun _ _ => quiet_moveElem self _ _) _ _ _)

theorem quiet_runFrom (self : Deque) (slot count : Nat) : Heap.Quiet (runFrom self slot count : Run (DequeMem α) Nat) :=
  (Heap.Quiet.of_require _).bind fun _ => Heap.Quiet.of_pure _

theorem quiet_slotBack (self : Deque) (slot count : Nat) :
    Heap.Quiet (slotBack self slot count : Run (DequeMem α) Nat) :=
  (Heap.Quiet.of_require _).bind fun _ => (Heap.Quiet.of_require _).bind fun _ => Heap.Quiet.of_pure _

theorem quiet_copyOut (self : Deque) : Heap.Quiet (copyOut self : Run (DequeMem α) (List (Option α))) := by
  refine (Heap.Quiet.of_pure _).ite ((quiet_runFrom self _ _).bind fun run => ?_)
  refine (quiet_readRun _ _ _).bind fun front => ?_
  exact ((quiet_readRun _ _ _).bind fun back => Heap.Quiet.of_pure _).ite (Heap.Quiet.of_pure _)

theorem quiet_copyRangeIn (self : Deque) (idx : Nat) (src : List (Option α)) :
    Heap.Quiet (copyRangeIn self idx src) := by
  refine (Heap.Quiet.of_require _).bind fun _ => (Heap.Quiet.of_pure _).ite ?_
  refine (Heap.Quiet.of_require _).bind fun _ => (quiet_runFrom self _ _).bind fun run => ?_
  refine (quiet_writeRun _ _ _).bind fun _ => ?_
  exact (quiet_writeRun _ _ _).ite (Heap.Quiet.of_pure _)

theorem quiet_operand (self : Deque) (val : Operand α) (idx : Option Nat) : Heap.Quiet (operand self val idx) := by
  cases idx with
  | some idx => exact quiet_elemAt self idx
  | none =>
      cases val with
      | outside val => exact Heap.Quiet.of_pure (some val)
      | slot slot => exact Heap.Quiet.of_failure

theorem allows_aliasIdx {val : Operand α} {S : Type} {s : S} {post : Option Nat -> S -> Prop}
    (any : forall idx, post idx s) : Allows (aliasIdx self val) s post := by
  cases val with
  | outside val => exact (allows_pure _ _ _).mpr (any none)
  | slot slot =>
      simp only [aliasIdx, allows_bind, allows_require, allows_pure]
      exact fun _ _ => any (some _)

/-! ## Growth -/

theorem allows_relocate (sized : (grower α).Sized self) (heap : DequeMem α) (fits : self.elem.size * newCap < sizeRange) :
    Allows (relocate α self newCap) heap fun result later =>
      (result.1 ≠ .ok -> result.2 = self) ∧
        Growth (request α self) self.elem.size newCap heap [newCap] result.1 result.2.data result.2.cap later := by
  simp only [relocate, allows_bind, allows_require, blockLayout_eq fits]
  intro _ _ answer mid answered
  cases answer with
  | none =>
      refine (allows_pure _ _ _).mpr ⟨fun _ => rfl, ?_⟩
      exact Growth.denied sized.size fits answered
  | some ptr =>
      simp only [allows_bind]
      refine (quiet_copyOut self).allows fun vals copied same => ?_
      refine (quiet_writeRun _ _ vals).allows fun _ written still => ?_
      simp only [adoptBlock, freeBlock, allows_bind]
      refine (quiet_dealloc _ _ _).allows fun _ later last => ?_
      simp only [assertDeque, allows_require, allows_pure]
      refine fun _ => ⟨fun impossible => absurd rfl impossible, ?_⟩
      exact Growth.granted sized.size fits answered (last.trans (still.trans same))

/-- The deque asks for exactly so much room, if it has less. -/
theorem settles_reserve (sized : (grower α).Sized self) (heap : DequeMem α) (more : self.cap < newCap) :
    (grower α).Settles self newCap heap (reserve α self newCap) := by
  simp only [Grower.Settles, reserve, assertDeque, allows_bind, allows_require]
  intro _
  rw [if_neg (Nat.not_le_of_lt more)]
  rcases self.elem.ckdArray_cases newCap with ⟨none_, overflow⟩ | ⟨layout, fits⟩
  · simp only [none_, allows_pure]
    exact ⟨fun _ => trivial, [], (fun impossible => by cases impossible), Growth.overflowed overflow⟩
  · simp only [layout]
    refine (allows_relocate sized heap fits).mono ?_
    rintro result later ⟨still, growth⟩
    exact ⟨still, [newCap], fun _ => List.cons_ne_nil _ _, growth⟩

theorem allows_reserve (sized : (grower α).Sized self) :
    Allows (reserve α self newCap) heap fun result later => Grown self newCap heap result.1 result.2 later := by
  by_cases there : newCap ≤ self.cap
  · simp only [reserve, assertDeque, allows_bind, allows_require]
    intro _
    rw [if_pos there, allows_pure]
    exact sized.roomy there rfl
  · exact (settles_reserve sized heap (Nat.lt_of_not_le there)).grows (Nat.lt_of_not_le there)

theorem allows_reserveFor (sized : (grower α).Sized self) :
    Allows (reserveFor α self newLen) heap fun result later => Grown self newLen heap result.1 result.2 later := by
  simp only [reserveFor]
  rw [allows_bind, allows_require]
  exact fun more => Grower.allows_eager (fun mid _ => settles_reserve sized mid) more _

theorem allows_reserveOne (sized : (grower α).Sized self) :
    Allows (reserveOne α self) heap fun result later =>
      Grown self (self.len + 1) heap result.1 result.2 later :=
  Grower.allows_reserveOne sized (allows_reserveFor sized)

/-- Only where there is not enough room is any made. -/
theorem allows_ifMore (sized : (grower α).Sized self) {run : Run (DequeMem α) (Status × Deque)}
    {next : Status × Deque -> Run (DequeMem α) (Status × Deque)}
    (grows : self.cap < newLen -> Allows run heap fun result later =>
      Grown self newLen heap result.1 result.2 later)
    (stops : forall st grown, st ≠ .ok -> next (st, grown) = pure (st, grown))
    (fills : forall (grown : Deque) (mid : DequeMem α), (grower α).Fills grown mid (next (.ok, grown))) :
    Allows (if newLen > self.cap then run >>= next else pure (.ok, self) >>= next) heap fun result later =>
      Grown self newLen heap result.1 result.2 later := by
  by_cases more : newLen > self.cap
  · rw [if_pos more]
    exact Grower.allows_then (grows more) stops fills
  · rw [if_neg more]
    refine Grower.allows_then ?_ stops fills
    rw [allows_pure]
    exact sized.roomy (Nat.le_of_not_lt more) rfl

/-! ## The operations -/

theorem allows_openGap (sized : (grower α).Sized self) :
    Allows (openGap α self idx count) heap fun result later =>
      Grown self (self.len + count) heap result.1 result.2 later := by
  simp only [openGap, allows_bind, allows_require]
  intro _
  by_cases fits : self.len + count < sizeRange
  · simp only [ckdAdd, if_pos fits]
    refine allows_ifMore sized (fun _ => allows_reserveFor sized) (fun _ _ wrong => if_pos wrong) fun grown mid => ?_
    by_cases front : idx < grown.len - idx
    · simp only [Grower.Fills, if_granted, if_pos front, allows_bind]
      refine (quiet_slotBack grown _ _).allows fun head turned same => ?_
      refine (quiet_moveElems _ _ _ _).allows fun _ later still => ?_
      simp only [allows_pure]
      exact ⟨trivial, trivial, trivial, still.trans same⟩
    · simp only [Grower.Fills, if_granted, if_neg front, allows_bind]
      refine (quiet_moveElems _ _ _ _).allows fun _ later same => ?_
      simp only [allows_pure]
      exact ⟨trivial, trivial, trivial, same⟩
  · simp only [ckdAdd, if_neg fits, allows_pure]
    exact Grower.overflowed ((Nat.le_of_not_lt fits).trans (Nat.le_mul_of_pos_left _ sized.size))

theorem allows_insertRaw (sized : (grower α).Sized self) {src : List α} :
    Allows (insertRaw self idx src) heap fun result later =>
      Grown self (self.len + src.length) heap result.1 result.2 later := by
  unfold insertRaw
  refine Grower.allows_insertRaw sized (allows_openGap sized) (fun _ _ wrong => if_pos wrong) fun grown mid => ?_
  simp only [Grower.Fills, if_granted, allows_bind]
  refine (quiet_copyRangeIn grown _ _).allows fun _ later same => ?_
  simp only [assertDeque, allows_require, allows_pure]
  exact fun _ => ⟨trivial, trivial, trivial, same⟩

theorem allows_pushFront (sized : (grower α).Sized self) {val : Operand α} :
    Allows (pushFront self val) heap fun result later =>
      Grown self (self.len + 1) heap result.1 result.2 later := by
  simp only [pushFront, assertDeque]
  rw [allows_bind, allows_require]
  intro _
  rw [allows_bind]
  refine allows_aliasIdx fun idx => ?_
  refine Grower.allows_then (allows_reserveOne sized) (fun _ _ wrong => if_pos wrong) fun grown mid => ?_
  simp only [Grower.Fills, if_granted, allows_bind]
  refine (quiet_operand grown val idx).allows fun src read same => ?_
  refine (quiet_slotBack grown _ _).allows fun head turned still => ?_
  refine (quiet_writeSlot _ _ src).allows fun _ later last => ?_
  simp only [allows_require, allows_pure]
  exact fun _ => ⟨trivial, trivial, trivial, last.trans (still.trans same)⟩

theorem allows_pushBack (sized : (grower α).Sized self) {val : Operand α} :
    Allows (pushBack self val) heap fun result later =>
      Grown self (self.len + 1) heap result.1 result.2 later := by
  simp only [pushBack, assertDeque]
  rw [allows_bind, allows_require]
  intro _
  rw [allows_bind]
  refine allows_aliasIdx fun idx => ?_
  refine Grower.allows_then (allows_reserveOne sized) (fun _ _ wrong => if_pos wrong) fun grown mid => ?_
  simp only [Grower.Fills, if_granted, allows_bind]
  refine (quiet_operand grown val idx).allows fun src read same => ?_
  refine (quiet_setElemAt grown _ src).allows fun _ later still => ?_
  simp only [allows_require, allows_pure]
  exact fun _ => ⟨trivial, trivial, trivial, still.trans same⟩

theorem allows_insert (sized : (grower α).Sized self) {val : Operand α} :
    Allows (insert self idx val) heap fun result later =>
      Grown self (self.len + 1) heap result.1 result.2 later := by
  simp only [insert, assertDeque]
  rw [allows_bind, allows_require]
  intro _
  rw [allows_bind, allows_require]
  intro _
  rw [allows_bind]
  refine allows_aliasIdx fun src => ?_
  cases src with
  | none =>
      cases val with
      | outside val => exact allows_insertRaw sized
      | slot slot =>
          intro _ _ impossible
          cases impossible
  | some src =>
      refine Grower.allows_then (allows_openGap sized) (fun _ _ wrong => if_pos wrong) fun grown mid => ?_
      simp only [Grower.Fills, if_granted, allows_bind]
      refine (quiet_moveElem grown _ _).allows fun _ later same => ?_
      simp only [allows_require, allows_pure]
      exact fun _ => ⟨trivial, trivial, trivial, same⟩

theorem allows_insertSpan (sized : (grower α).Sized self) {src : SpanView α} :
    Allows (insertSpan self idx src) heap fun result later =>
      Grown self (self.len + src.elems.length) heap result.1 result.2 later := by
  simp only [insertSpan, assertDeque, allows_bind, allows_require]
  exact fun _ _ _ => allows_insertRaw sized

theorem allows_extend (sized : (grower α).Sized self) {src : SpanView α} :
    Allows (extend self src) heap fun result later =>
      Grown self (self.len + src.elems.length) heap result.1 result.2 later := by
  simp only [extend, assertDeque, allows_bind, allows_require]
  exact fun _ _ => allows_insertSpan sized

theorem allows_resize (sized : (grower α).Sized self) {zero : α} :
    Allows (resize zero self newLen) heap fun result later =>
      Grown self newLen heap result.1 result.2 later := by
  simp only [resize, assertDeque]
  rw [allows_bind, allows_require]
  intro _
  by_cases fewer : newLen ≤ self.len
  · simp only [if_pos fewer, allows_bind, allows_require, allows_pure]
    exact fun _ => ⟨[], Growth.enough sized.size sized.fits (fewer.trans sized.load) rfl, fun _ _ => rfl⟩
  · rw [if_neg fewer]
    refine allows_ifMore sized (fun _ => allows_reserveFor sized) (fun _ _ wrong => if_pos wrong) fun grown mid => ?_
    simp only [Grower.Fills, if_granted, allows_bind]
    refine (Heap.Quiet.countUp (fun i _ => quiet_setElemAt grown i _) _ _ _).allows fun _ later same => ?_
    simp only [allows_require, allows_pure]
    exact fun _ => ⟨trivial, trivial, trivial, same⟩

theorem allows_shrinkToFit (sized : (grower α).Sized self) :
    Allows (shrinkToFit α self) heap fun result later => Grown self self.len heap result.1 result.2 later := by
  simp only [shrinkToFit, assertDeque, allows_bind, allows_require]
  intro _
  by_cases full : self.len = self.cap
  · rw [if_pos full, allows_pure]
    exact sized.roomy sized.load rfl
  · rw [if_neg full]
    by_cases empty : self.len = 0
    · simp only [if_pos empty, releaseData, freeBlock, allows_bind]
      refine (quiet_dealloc _ _ _).allows fun _ later same => ?_
      simp only [allows_require, allows_pure]
      refine fun _ => ⟨[], Growth.enough sized.size ?_ (Nat.le_of_eq empty) same, fun _ _ => rfl⟩
      exact Nat.lt_of_le_of_lt (Nat.zero_le _) sized.fits
    · have fits : self.elem.size * self.len < sizeRange :=
        Nat.lt_of_le_of_lt (Nat.mul_le_mul_left _ sized.load) sized.fits
      rw [if_neg empty]
      refine (allows_relocate sized heap fits).mono ?_
      exact fun result later ⟨_, growth⟩ => ⟨[self.len], growth, fun more => absurd more (Nat.lt_irrefl _)⟩

theorem allows_copyOver (sized : (grower α).Sized self) {other : Deque} (theirs : (grower α).Sized other)
    (same : self.elem = other.elem) :
    Allows (copyOver α self other) heap fun result later =>
      Grown self other.len heap result.1 result.2 later := by
  have fits : self.elem.size * other.len < sizeRange := by
    rw [same]
    exact Nat.lt_of_le_of_lt (Nat.mul_le_mul_left _ theirs.load) theirs.fits
  have fills : forall (grown : Deque) (mid : DequeMem α), (grower α).Fills grown mid (do
      let vals ← copyOut (α := α) other
      fillRun grown.data vals
      assertDeque { grown with head := 0, len := other.len }
      pure (Status.ok, { grown with head := 0, len := other.len })) := by
    intro grown mid
    simp only [Grower.Fills, allows_bind]
    refine (quiet_copyOut other).allows fun vals copied still => ?_
    refine (quiet_fillRun _ vals).allows fun _ later last => ?_
    simp only [assertDeque, allows_require, allows_pure]
    exact fun _ => ⟨trivial, trivial, trivial, last.trans still⟩
  unfold copyOver
  by_cases more : other.len > self.cap
  · have roomless : forall made : List Nat, self.len < other.len -> other.len ≤ self.cap -> made = [] :=
      fun _ _ room => absurd room (Nat.not_le_of_lt more)
    simp only [if_pos more, allows_bind, blockLayout_eq fits]
    intro answer mid answered
    cases answer with
    | none =>
        rw [allows_bind, allows_pure]
        have grew : Grown self other.len heap .errNoMem self mid :=
          ⟨[other.len], Growth.denied sized.size fits answered, roomless _⟩
        exact grew.onward (fun _ => rfl) (absurd · (by decide))
    | some ptr =>
        simp only [adoptBlock, freeBlock, allows_bind]
        refine (quiet_dealloc _ _ _).allows fun _ later last => ?_
        rw [allows_pure, allows_pure]
        have grew : Grown self other.len heap .ok { self with data := some ptr, cap := other.len, head := 0 } later :=
          ⟨[other.len], Growth.granted sized.size fits answered last, roomless _⟩
        exact grew.onward (absurd rfl) fun _ => fills _ later
  · rw [if_neg more, allows_bind, allows_pure]
    exact (sized.roomy (Nat.le_of_not_lt more) rfl).onward (absurd rfl) fun _ => fills self heap

/-! ## The constructors -/

variable {elem : Layout} {al : Al}

theorem allows_initImpl (len cap : Nat) :
    Allows (initImpl (none : Option α) len cap elem al) heap fun result later =>
      result.1 ≠ .ok -> Refusal (firstRequest α elem al) elem.size cap heap later := by
  unfold initImpl init
  simp only [allows_bind, allows_require, allows_pure]
  refine fun _ _ _ => allows_first ?_ fun ptr mid => ?_
  all_goals
    simp only [assertDeque, allows_bind, allows_require, allows_pure]
    exact fun _ => trivial

theorem allows_fromData (data : List α) :
    Allows (fromData data elem al) heap fun result later =>
      result.1 ≠ .ok -> Refusal (firstRequest α elem al) elem.size data.length heap later := by
  refine allows_written (allows_initImpl _ _) (fun _ _ wrong => if_pos wrong) fun out mid => ?_
  simp only [if_granted, allows_bind, allows_pure]
  exact fun _ _ _ _ _ _ => trivial

theorem allows_copyWith :
    Allows (copyWith α self al) heap fun result later =>
      result.1 ≠ .ok -> Refusal (firstRequest α self.elem al) self.elem.size self.len heap later := by
  unfold copyWith assertDeque
  rw [allows_bind, allows_require]
  intro _
  refine allows_written (allows_initImpl _ _) (fun _ _ wrong => if_pos wrong) fun out mid => ?_
  simp only [if_granted, allows_bind, allows_pure]
  exact fun _ _ _ _ _ _ _ _ _ => trivial

/-! ## What an operation needs -/

/-- How many elems an operation asks room for. -/
def Op.required (deque : Deque) : Op α C -> Option Nat
  | pushFront _ | pushBack _ | insert .. => some (deque.len + 1)
  | insertSpan _ src | extend src => some (deque.len + src.elems.length)
  | resize newLen => some newLen
  | reserve newCap => some newCap
  | shrinkToFit => some deque.len
  | _ => none

theorem Op.allows_run (op : Op α C) (sized : (grower α).Sized self) (zero : α) (needs : op.required self = some need) :
    Allows (op.run zero self) heap fun result later => Grown self need heap result.1 result.2.2 later := by
  cases op with
  | pushFront val =>
      cases needs
      exact Grower.allows_handing (allows_pushFront sized)
  | pushBack val =>
      cases needs
      exact Grower.allows_handing (allows_pushBack sized)
  | insert idx val =>
      cases needs
      exact Grower.allows_handing (allows_insert sized)
  | insertSpan idx src =>
      cases needs
      exact Grower.allows_handing (allows_insertSpan sized)
  | extend src =>
      cases needs
      exact Grower.allows_handing (allows_extend sized)
  | resize newLen =>
      cases needs
      exact Grower.allows_handing (allows_resize sized)
  | reserve newCap =>
      cases needs
      exact Grower.allows_handing (allows_reserve sized)
  | shrinkToFit =>
      cases needs
      exact Grower.allows_handing (allows_shrinkToFit sized)
  | _ => cases needs

end Deque
end TerseDsa
