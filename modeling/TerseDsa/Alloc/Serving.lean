import TerseDsa.Alloc.Contract

namespace TerseDsa

open Foundation Run

/-!
# Allocators that serve for a while

An allocator may come to a point where it can answer no more, as one that counts
its requests does.  `Serves` is the contract of the hooks up to there: a request
is only made while the allocator is `able`.  What the wrappers make of such hooks
is proved here once, without the record of the calls.
-/

/-- A block that lies apart from a live one is not that one. -/
theorem Fresh.ne {live : Set (Nat × Layout)} {addr : Nat} {layout : Layout} {block : Nat × Layout}
    (fresh : Fresh live addr layout) (some_ : 0 < layout.size) (inside : block ∈ live) : (addr, layout) ≠ block := by
  rintro rfl
  have apart := fresh.apart _ inside
  unfold Region.Apart Parent.region Region.stop at apart
  simp only at apart
  omega

namespace Ledger

variable {S : Type} [HasBytes S]

/-- The contracts of the hooks while the allocator is able.  A resize or a remap
that is refused leaves it able. -/
structure Serves (ledger : Ledger S) (able : S -> Prop) (al : AlVtable S) : Prop where
  alloc : forall s layout, ledger.good s -> able s -> layout.Asked -> ledger.gives layout.align ->
    0 < layout.size -> Ends (al.alloc layout) s (ledger.Grants layout s)
  allocZeroed : forall hook, al.allocZeroed = some hook -> forall s layout, ledger.good s -> able s ->
    layout.Asked -> ledger.gives layout.align -> 0 < layout.size -> Ends (hook layout) s fun answer later =>
      ledger.Grants layout s answer later ∧ forall addr, answer = some addr ->
        forall offset, offset < layout.size -> HasBytes.bytes later (addr + offset) = 0
  resize : forall hook, al.resize = some hook -> forall s ptr old newSize, ledger.good s ->
    (ptr, old) ∈ ledger.live s -> 0 < old.size -> 0 < newSize -> newSize < sizeRange ->
    Ends (hook ptr old newSize) s fun done later =>
      ledger.Resizes ptr old newSize s (if done = true then some ptr else none) later ∧
        (done = false -> able s -> able later)
  remap : forall hook, al.remap = some hook -> forall s ptr old newSize, ledger.good s ->
    (ptr, old) ∈ ledger.live s -> 0 < old.size -> 0 < newSize -> newSize < sizeRange ->
    Ends (hook ptr old newSize) s fun answer later =>
      ledger.Resizes ptr old newSize s answer later ∧ (answer = none -> able s -> able later)
  dealloc : forall s ptr layout, ledger.good s -> (ptr, layout) ∈ ledger.live s -> 0 < layout.size ->
    Ends (al.dealloc ptr layout) s fun _ later => ledger.Releases (ptr, layout) s later
  write : forall s block region content, ledger.good s -> block ∈ ledger.live s ->
    region.Within (Parent.region block) ->
    ledger.good (HasBytes.withBytes ((HasBytes.bytes s).overwrite region content) s) ∧
      ledger.live (HasBytes.withBytes ((HasBytes.bytes s).overwrite region content) s) = ledger.live s

variable {ledger : Ledger S} {able : S -> Prop} {al : AlVtable S} {before middle later : S} {layout old : Layout}
  {ptr newSize : Nat} {answer : Option Addr}

/-- What meets the contract serves for good. -/
theorem Meets.serves (meets : ledger.Meets al) : ledger.Serves (fun _ => True) al where
  alloc s layout good _ := meets.alloc s layout good
  allocZeroed hook there s layout good _ := meets.allocZeroed hook there s layout good
  resize hook there s ptr old newSize good live held some_ fits :=
    (meets.resize hook there s ptr old newSize good live held some_ fits).mono
      fun _ _ resizes => ⟨resizes, fun _ _ => trivial⟩
  remap hook there s ptr old newSize good live held some_ fits :=
    (meets.remap hook there s ptr old newSize good live held some_ fits).mono
      fun _ _ resizes => ⟨resizes, fun _ _ => trivial⟩
  dealloc := meets.dealloc
  write := meets.write

theorem Resizes.idle (good : ledger.good before) : ledger.Resizes ptr old newSize before none before :=
  ⟨good, Intact.refl _ _, rfl, Intact.refl _ _⟩

/-- What is tried first and refused takes nothing away from what comes after it. -/
theorem Resizes.after_refusal (first : ledger.Resizes ptr old newSize before none middle)
    (live : (ptr, old) ∈ ledger.live before) (second : ledger.Resizes ptr old newSize middle answer later) :
    ledger.Resizes ptr old newSize before answer later := by
  rcases first.outcome with ⟨same, kept⟩
  rcases second with ⟨good, intact, outcome⟩
  rw [same] at intact outcome
  refine ⟨good, (kept.anti Set.sdiff_subset).trans intact, ?_⟩
  cases answer with
  | none => exact ⟨outcome.1, kept.trans outcome.2⟩
  | some addr =>
      exact ⟨outcome.1, outcome.2.1, (kept.carries live (Nat.min_le_left _ _)).trans outcome.2.2⟩

/-! ## The wrappers over such hooks -/

/-- A block of at least one byte is handed out, or refused. -/
theorem Serves.ends_allocate (serves : ledger.Serves able al) (good : ledger.good before) (isAble : able before)
    (asked : layout.Asked) (gives : ledger.gives layout.align) :
    Ends (AlVtable.allocate al layout) before fun answer later =>
      ledger.Grants layout before answer later ∧ (answer ≠ none -> 0 < layout.size) := by
  apply AlVtable.ends_allocate asked
  · exact fun _ => ⟨⟨good, Intact.refl _ _, rfl⟩, fun impossible => absurd rfl impossible⟩
  · intro some_
    refine (serves.alloc before layout good isAble asked gives some_).mono fun answer later grants => ?_
    refine ⟨?_, grants, fun _ => some_⟩
    rintro addr rfl
    exact grants.outcome.1.aligned

/-- The bytes that were written lie in one block, so that all others are as they were. -/
theorem Serves.ends_overwritten (serves : ledger.Serves able al) {block : Nat × Layout} {region : Region}
    {others : Set (Nat × Layout)} (content : Nat -> Byte) (good : ledger.good before)
    (live : block ∈ ledger.live before) (within : region.Within (Parent.region block))
    (apart : forall other, other ∈ others -> (Parent.region block).Apart (Parent.region other)) :
    let later := HasBytes.withBytes ((HasBytes.bytes before).overwrite region content) before
    ledger.good later ∧ ledger.live later = ledger.live before ∧
      HasBytes.bytes later = (HasBytes.bytes before).overwrite region content ∧
      Intact others (HasBytes.bytes before) (HasBytes.bytes later) := by
  have written := serves.write before block region content good live within
  have now := HasBytes.bytes_withBytes ((HasBytes.bytes before).overwrite region content) before
  refine ⟨written.1, written.2, now, ?_⟩
  rw [now]
  exact Intact.of_keeps (Bytes.keeps_overwrite _ _ _)
    fun other inside => (apart other inside).within within (Region.Within.refl _)

/-- The block is zeroed by the hook, or by the wrapper where there is no hook. -/
theorem Serves.ends_allocateZeroed (serves : ledger.Serves able al) (good : ledger.good before)
    (isAble : able before) (asked : layout.Asked) (gives : ledger.gives layout.align) :
    Ends (AlVtable.allocateZeroed al layout) before fun answer later =>
      ledger.Grants layout before answer later ∧ forall addr, answer = some addr ->
        0 < layout.size ∧ forall offset, offset < layout.size -> HasBytes.bytes later (addr + offset) = 0 := by
  simp only [AlVtable.allocateZeroed, ends_bind, ends_require, asked.isAlign, true_and]
  by_cases empty : layout.size = 0
  · simp only [if_pos empty, ends_pure]
    exact ⟨⟨good, Intact.refl _ _, rfl⟩, fun _ impossible => absurd impossible.symm (Option.some_ne_none _)⟩
  · rw [if_neg empty]
    have some_ : 0 < layout.size := Nat.pos_of_ne_zero empty
    cases there : al.allocZeroed with
    | some hook =>
        simp only [ends_bind, ends_require, ends_pure]
        refine (serves.allocZeroed hook there before layout good isAble asked gives some_).mono ?_
        rintro answer later ⟨grants, zeroed⟩
        refine ⟨?_, grants, fun addr same => ⟨some_, zeroed addr same⟩⟩
        cases answer with
        | none => rfl
        | some addr => exact (AlVtable.meets_some asked.isAlign).mpr grants.outcome.1.aligned
    | none =>
        change Ends (AlVtable.allocate al layout >>= _) before _
        rw [ends_bind]
        refine (serves.ends_allocate good isAble asked gives).mono ?_
        rintro answer middle ⟨grants, _⟩
        cases answer with
        | none =>
            exact (ends_pure _ _ _).mpr
              ⟨grants, fun _ impossible => absurd impossible.symm (Option.some_ne_none _)⟩
        | some addr =>
            rcases grants.outcome with ⟨isFresh, grown⟩
            have inside : (addr, layout) ∈ ledger.live middle := by
              rw [grown]
              exact Set.mem_insert _ _
            rcases serves.ends_overwritten (fun _ => 0) grants.good inside (Region.Within.refl _) isFresh.apart
              with ⟨goodThen, liveThen, now, kept⟩
            simp only [ends_bind, AlVtable.setBytes, ends_modify, ends_pure]
            refine ⟨⟨goodThen, grants.intact.trans kept, isFresh, liveThen.trans grown⟩, ?_⟩
            rintro _ ⟨⟩
            refine ⟨some_, fun offset low => ?_⟩
            have covers : Region.Covers (Parent.region (addr, layout)) (addr + offset) :=
              ⟨Nat.le_add_right _ _, Nat.add_lt_add_left low _⟩
            exact (congrFun now _).trans (if_pos covers)

/-- A block may be resized in place; without the hook it never is. -/
theorem Serves.ends_resizeInPlace (serves : ledger.Serves able al) (good : ledger.good before)
    (live : (ptr, old) ∈ ledger.live before) (isAlign : Layout.isAlign old.align = true)
    (held : 0 < old.size) (some_ : 0 < newSize) (fits : newSize < sizeRange) :
    Ends (AlVtable.resizeInPlace al ptr old newSize) before fun done later =>
      ledger.Resizes ptr old newSize before (if done = true then some ptr else none) later ∧
        (done = false -> able before -> able later) := by
  simp only [AlVtable.resizeInPlace, ends_bind, ends_require, held, some_, isAlign, true_and, and_self]
  cases there : al.resize with
  | none => exact (ends_pure _ _ _).mpr ⟨.idle good, fun _ isAble => isAble⟩
  | some hook => exact serves.resize hook there before ptr old newSize good live held some_ fits

/-- The allocator may move a block itself; without the hook it never does. -/
theorem Serves.ends_moveByHook (serves : ledger.Serves able al) (good : ledger.good before)
    (live : (ptr, old) ∈ ledger.live before) (isAlign : Layout.isAlign old.align = true)
    (held : 0 < old.size) (some_ : 0 < newSize) (fits : newSize < sizeRange) :
    Ends (AlVtable.moveByHook al ptr old newSize) before fun answer later =>
      ledger.Resizes ptr old newSize before answer later ∧ (answer = none -> able before -> able later) := by
  simp only [AlVtable.moveByHook, ends_bind, ends_require, held, some_, isAlign, true_and, and_self]
  cases there : al.remap with
  | none => exact (ends_pure _ _ _).mpr ⟨.idle good, fun _ isAble => isAble⟩
  | some hook =>
      simp only [ends_bind, ends_require, ends_pure]
      refine (serves.remap hook there before ptr old newSize good live held some_ fits).mono ?_
      rintro answer later ⟨resizes, keeps⟩
      refine ⟨?_, resizes, keeps⟩
      cases answer with
      | none => rfl
      | some addr => exact (AlVtable.meets_some isAlign).mpr resizes.outcome.1.aligned

theorem Serves.ends_deallocate (serves : ledger.Serves able al) (good : ledger.good before)
    (live : (ptr, layout) ∈ ledger.live before) (isAlign : Layout.isAlign layout.align = true)
    (held : 0 < layout.size) :
    Ends (AlVtable.deallocate al (some ptr) layout) before fun _ later =>
      ledger.Releases (ptr, layout) before later := by
  simp only [AlVtable.deallocate, ends_bind, ends_require, held, or_true, isAlign, true_and]
  exact serves.dealloc before ptr layout good live held

/-- The last resort of a realloc: a new block, the bytes copied, and the old block given back. -/
theorem Serves.ends_copy (serves : ledger.Serves able al) (good : ledger.good before) (isAble : able before)
    (live : (ptr, old) ∈ ledger.live before) (asked : Layout.Asked ⟨newSize, old.align⟩)
    (gives : ledger.gives old.align) (some_ : 0 < newSize) (held : 0 < old.size) :
    Ends (do
      match ← AlVtable.allocate al ⟨newSize, old.align⟩ with
      | none => return none
      | some fresh =>
          AlVtable.copyBytes fresh ptr (if old.size < newSize then old.size else newSize)
          AlVtable.deallocate al (some ptr) old
          return some fresh) before (ledger.Resizes ptr old newSize before) := by
  have isAlign : Layout.isAlign old.align = true := asked.isAlign
  simp only [ends_bind]
  refine (serves.ends_allocate good isAble asked gives).mono ?_
  rintro answer middle ⟨grants, _⟩
  cases answer with
  | none =>
      exact (ends_pure _ _ _).mpr
        ⟨grants.good, grants.intact.anti Set.sdiff_subset, grants.outcome, grants.intact⟩
  | some fresh =>
      rcases grants.outcome with ⟨isFresh, grown⟩
      have count_eq : (if old.size < newSize then old.size else newSize) = min old.size newSize := by
        split <;> omega
      have different := isFresh.ne some_ live
      have inside : (fresh, ⟨newSize, old.align⟩) ∈ ledger.live middle := by
        rw [grown]
        exact Set.mem_insert _ _
      have within : Region.Within ⟨fresh, min old.size newSize⟩ (Parent.region (fresh, ⟨newSize, old.align⟩)) :=
        Region.within_of_le (Nat.min_le_right _ _)
      rcases serves.ends_overwritten (fun offset => HasBytes.bytes middle (ptr + offset)) grants.good inside within
        isFresh.apart with ⟨goodThen, liveThen, now, kept⟩
      simp only [ends_bind, AlVtable.copyBytes, ends_modify, ends_pure]
      rw [count_eq]
      have stillLive : (ptr, old) ∈ ledger.live middle := by
        rw [grown]
        exact Set.mem_insert_of_mem _ live
      refine (serves.ends_deallocate goodThen (liveThen ▸ stillLive) isAlign held).mono ?_
      intro _ later releases
      have liveLater : ledger.live later =
          insert (fresh, ⟨newSize, old.align⟩) (ledger.live before \ {(ptr, old)}) := by
        refine (releases.live.trans (congrArg (· \ _) (liveThen.trans grown))).trans ?_
        exact Set.insert_sdiff_of_notMem _ (fun same => different (Set.mem_singleton_iff.mp same))
      refine ⟨releases.good, ?_, ?_, liveLater, ?_⟩
      · refine ((grants.intact.trans kept).anti Set.sdiff_subset).trans (releases.intact.anti ?_)
        refine Set.sdiff_subset_sdiff_left (Set.Subset.trans ?_ (Set.Subset.antisymm_iff.mp (liveThen.trans grown)).2)
        exact Set.subset_insert _ _
      · exact ⟨isFresh.real, isFresh.room, isFresh.aligned, fun block member => isFresh.apart block member.1⟩
      · have carried : Carries (HasBytes.bytes middle) ((HasBytes.bytes middle).overwrite
            ⟨fresh, min old.size newSize⟩ fun offset => HasBytes.bytes middle (ptr + offset))
            ptr fresh (min old.size newSize) := by
          intro offset low
          have covers : Region.Covers ⟨fresh, min old.size newSize⟩ (fresh + offset) :=
            ⟨Nat.le_add_right _ _, Nat.add_lt_add_left low _⟩
          rw [Bytes.overwrite, if_pos covers, Nat.add_sub_cancel_left]
        have remains : (fresh, ⟨newSize, old.align⟩) ∈ ledger.live middle \ {(ptr, old)} :=
          ⟨inside, different⟩
        refine ((grants.intact.carries live (Nat.min_le_left _ _)).trans (now ▸ carried)).trans ?_
        exact releases.intact.carries (liveThen.symm ▸ remains) (Nat.min_le_right _ _)

/-- Whatever the allocator leaves out, refuses or moves, `tda_realloc` resizes the block or
leaves everything as it is; at size 0 it gives the block back. -/
theorem Serves.ends_reallocate (serves : ledger.Serves able al) (good : ledger.good before) (isAble : able before)
    (live : (ptr, old) ∈ ledger.live before) (held : 0 < old.size) (asked : Layout.Asked ⟨newSize, old.align⟩)
    (gives : ledger.gives old.align) :
    Ends (AlVtable.reallocate al (some ptr) old newSize) before fun answer later =>
      (newSize = 0 -> answer = none ∧ ledger.Releases (ptr, old) before later) ∧
        (0 < newSize -> ledger.Resizes ptr old newSize before answer later) := by
  have isAlign : Layout.isAlign old.align = true := asked.isAlign
  have holds : (some ptr = none <-> old.size = 0) :=
    ⟨fun impossible => (by cases impossible), fun empty => absurd empty (Nat.ne_of_gt held)⟩
  simp only [AlVtable.reallocate, ends_bind, ends_require, isAlign, holds, true_and]
  by_cases nothing : newSize = 0
  · rw [if_pos nothing]
    simp only [ends_bind, ends_pure]
    refine (serves.ends_deallocate good live isAlign held).mono fun _ later releases => ?_
    exact ⟨fun _ => ⟨trivial, releases⟩, fun some_ => absurd nothing (Nat.ne_of_gt some_)⟩
  · have some_ : 0 < newSize := Nat.pos_of_ne_zero nothing
    suffices resized : Ends _ before (ledger.Resizes ptr old newSize before) by
      rw [if_neg nothing]
      exact resized.mono fun _ _ resizes => ⟨fun empty => absurd empty nothing, fun _ => resizes⟩
    simp only [ends_bind]
    refine (serves.ends_resizeInPlace good live isAlign held some_ asked.size).mono ?_
    rintro done middle ⟨resizes, keeps⟩
    cases done with
    | true =>
        simp only [if_true, ends_pure]
        exact resizes
    | false =>
        rw [if_neg Bool.false_ne_true] at resizes
        have stillLive : (ptr, old) ∈ ledger.live middle := resizes.outcome.1.symm ▸ live
        simp only [Bool.false_eq_true, if_false, ends_bind]
        refine (serves.ends_moveByHook resizes.good stillLive isAlign held some_ asked.size).mono ?_
        rintro moved then_ ⟨moves, keepsThen⟩
        cases moved with
        | some other => exact (ends_pure _ _ _).mpr (resizes.after_refusal live moves)
        | none =>
            have liveThen : (ptr, old) ∈ ledger.live then_ := moves.outcome.1.symm ▸ stillLive
            have ableThen := keepsThen rfl (keeps rfl isAble)
            refine (serves.ends_copy moves.good ableThen liveThen asked gives some_ held).mono ?_
            exact fun answer later copied => resizes.after_refusal live (moves.after_refusal stillLive copied)

end Ledger
end TerseDsa
