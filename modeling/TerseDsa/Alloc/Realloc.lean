import TerseDsa.Alloc.Contract
import TerseDsa.Alloc.Vtable

namespace TerseDsa

open Foundation Run

/-!
# The contract of `tda_realloc`

Over whatever meets the contract of its hooks, with any of the three optional
ones missing, `tda_realloc` loses no block and gives none back twice.
-/

namespace Ledger

variable {S : Type}

/-- The block that the caller holds, if any. -/
def held (ptr : Option Addr) (old : Layout) : List (Nat × Layout) := ptr.toList.map (·, old)

/-- The caller may give the block back under this layout: it is live, or there is none. -/
structure Holds (ledger : Ledger S) (s : S) (ptr : Option Addr) (old : Layout) : Prop where
  nothing : ptr = none <-> old.size = 0
  live : forall block, block ∈ held ptr old -> block ∈ ledger.live s

/-- The blocks that are live besides the caller's. -/
def besides (ledger : Ledger S) (s : S) (ptr : Option Addr) (old : Layout) : Set (Nat × Layout) :=
  ledger.live s \ {block | block ∈ held ptr old}

theorem besides_none (ledger : Ledger S) (s : S) (old : Layout) :
    ledger.besides s none old = ledger.live s := by
  ext block
  exact ⟨fun inside => inside.1, fun inside => ⟨inside, List.not_mem_nil⟩⟩

theorem besides_some (ledger : Ledger S) (s : S) (ptr : Addr) (old : Layout) :
    ledger.besides s (some ptr) old = ledger.live s \ {(ptr, old)} := by
  ext block
  exact and_congr Iff.rfl (not_congr List.mem_singleton)

variable [HasBytes S] {ledger : Ledger S} {al : AlVtable S} {before : Traced S} {layout old : Layout} {ptr addr : Addr}
  {newSize : Nat}

/-! ## The wrappers over such an allocator -/

/-- A block of at least one byte is asked for with one call of `alloc`. -/
theorem Meets.ends_allocate (meets : ledger.Meets al) (good : ledger.good before.state) (asked : layout.Asked)
    (gives : ledger.gives layout.align) (some_ : 0 < layout.size) :
    Ends (AlVtable.allocate al.traced layout) before fun answer later =>
      ledger.Grants layout before.state answer later.state ∧
        later.calls = before.calls ++ [HookCall.alloc layout answer] := by
  apply AlVtable.ends_allocate asked
  · exact fun empty => absurd empty (Nat.ne_of_gt some_)
  · intro _
    refine Traced.ends_observe.mpr ((meets.alloc before.state layout good asked gives some_).mono ?_)
    intro answer later grants
    refine ⟨?_, grants, rfl⟩
    rintro addr rfl
    exact grants.outcome.1.aligned

/-- A block may be resized in place; without the hook it never is. -/
theorem Meets.ends_resizeInPlace (meets : ledger.Meets al) (good : ledger.good before.state)
    (live : (ptr, old) ∈ ledger.live before.state) (isAlign : Layout.isAlign old.align = true)
    (held : 0 < old.size) (some_ : 0 < newSize) (fits : newSize < sizeRange) :
    Ends (AlVtable.resizeInPlace al.traced ptr old newSize) before fun done later =>
      ledger.Resizes ptr old newSize before.state (if done = true then some ptr else none) later.state ∧
        exists calls, later.calls = before.calls ++ calls ∧ forall call, call ∈ calls -> call.Attempts := by
  simp only [AlVtable.resizeInPlace, ends_bind, ends_require, held, some_, isAlign, true_and, and_self]
  cases there : al.resize with
  | none =>
      simp only [AlVtable.traced, there, Option.map_none, ends_pure]
      exact ⟨⟨good, Intact.refl _ _, rfl, Intact.refl _ _⟩, [], (List.append_nil _).symm,
        fun _ impossible => absurd impossible List.not_mem_nil⟩
  | some hook =>
      simp only [AlVtable.traced, there, Option.map_some]
      refine Traced.ends_observe.mpr
        ((meets.resize hook there before.state ptr old newSize good live held some_ fits).mono ?_)
      intro done later resizes
      refine ⟨resizes, _, rfl, ?_⟩
      intro call inside
      rw [List.mem_singleton.mp inside]
      trivial

/-- The allocator may move a block itself; without the hook it never does. -/
theorem Meets.ends_moveByHook (meets : ledger.Meets al) (good : ledger.good before.state)
    (live : (ptr, old) ∈ ledger.live before.state) (isAlign : Layout.isAlign old.align = true)
    (held : 0 < old.size) (some_ : 0 < newSize) (fits : newSize < sizeRange) :
    Ends (AlVtable.moveByHook al.traced ptr old newSize) before fun answer later =>
      ledger.Resizes ptr old newSize before.state answer later.state ∧
        exists calls, later.calls = before.calls ++ calls ∧ forall call, call ∈ calls -> call.Attempts := by
  simp only [AlVtable.moveByHook, ends_bind, ends_require, held, some_, isAlign, true_and, and_self]
  cases there : al.remap with
  | none =>
      simp only [AlVtable.traced, there, Option.map_none, ends_pure]
      exact ⟨⟨good, Intact.refl _ _, rfl, Intact.refl _ _⟩, [], (List.append_nil _).symm,
        fun _ impossible => absurd impossible List.not_mem_nil⟩
  | some hook =>
      simp only [AlVtable.traced, there, Option.map_some, ends_bind, Traced.ends_observe, ends_require,
        ends_pure]
      refine (meets.remap hook there before.state ptr old newSize good live held some_ fits).mono ?_
      intro answer later resizes
      refine ⟨?_, resizes, _, rfl, ?_⟩
      · cases answer with
        | none => rfl
        | some addr => exact (AlVtable.meets_some isAlign).mpr resizes.outcome.1.aligned
      · intro call inside
        rw [List.mem_singleton.mp inside]
        trivial

/-- A block is given back with one call of `dealloc`. -/
theorem Meets.ends_deallocate (meets : ledger.Meets al) (good : ledger.good before.state)
    (live : (ptr, layout) ∈ ledger.live before.state) (isAlign : Layout.isAlign layout.align = true)
    (held : 0 < layout.size) :
    Ends (AlVtable.deallocate al.traced (some ptr) layout) before fun _ later =>
      ledger.Releases (ptr, layout) before.state later.state ∧
        later.calls = before.calls ++ [HookCall.dealloc ptr layout] := by
  simp only [AlVtable.deallocate, ends_bind, ends_require, held, or_true, isAlign, true_and]
  refine Traced.ends_observe.mpr ((meets.dealloc before.state ptr layout good live held).mono ?_)
  exact fun _ later releases => ⟨releases, rfl⟩

/-- The first bytes of a live block are written into a fresh one. -/
theorem Meets.ends_copyBytes (meets : ledger.Meets al) {live : Set (Nat × Layout)} (fresh : Nat × Layout)
    (src : Nat) {count : Nat} (good : ledger.good before.state) (grown : ledger.live before.state = insert fresh live)
    (apart : forall block, block ∈ live -> (Parent.region fresh).Apart (Parent.region block))
    (short : count ≤ fresh.2.size) :
    Ends (AlVtable.copyBytes fresh.1 src count) before fun _ later =>
      ledger.good later.state ∧ ledger.live later.state = insert fresh live ∧
        Intact live (HasBytes.bytes before.state) (HasBytes.bytes later.state) ∧
        Carries (HasBytes.bytes before.state) (HasBytes.bytes later.state) src fresh.1 count ∧
        later.calls = before.calls := by
  have within : Region.Within ⟨fresh.1, count⟩ (Parent.region fresh) := Region.within_of_le short
  have written := meets.write before.state fresh ⟨fresh.1, count⟩
    (fun offset => HasBytes.bytes before.state (src + offset)) good (by rw [grown]; exact Set.mem_insert _ _) within
  refine (ends_modify _ _ _).mpr ⟨written.1, written.2.trans grown, ?_, ?_, rfl⟩
  · change Intact live _ (HasBytes.bytes (HasBytes.withBytes _ before.state))
    rw [HasBytes.bytes_withBytes]
    exact Intact.of_keeps (Bytes.keeps_overwrite _ _ _)
      fun block inside => (apart block inside).within within (Region.Within.refl _)
  · intro offset low
    change HasBytes.bytes (HasBytes.withBytes _ before.state) _ = _
    rw [HasBytes.bytes_withBytes]
    have covers : Region.Covers ⟨fresh.1, count⟩ (fresh.1 + offset) :=
      ⟨Nat.le_add_right _ _, Nat.add_lt_add_left low _⟩
    change Bytes.overwrite _ _ _ _ = _
    rw [Bytes.overwrite, if_pos covers, Nat.add_sub_cancel_left]
    rfl

/-! ## What `tda_realloc` does with the block -/

/-- What `tda_realloc` comes to: a block of the new size that starts with the old one's bytes,
the old one given back if and only if the copy was made; or a refusal that left the old block as
it is; or, with nothing asked for, the old block given back. -/
structure Reallocates (ledger : Ledger S) (ptr : Option Addr) (old : Layout) (newSize : Nat)
    (before : Traced S) (answer : Option Addr) (later : Traced S) : Prop where
  good : ledger.good later.state
  intact : Intact (ledger.besides before.state ptr old) (HasBytes.bytes before.state) (HasBytes.bytes later.state)
  outcome : exists calls, later.calls = before.calls ++ calls ∧
    match answer with
    | some addr =>
        0 < newSize ∧ Fresh (ledger.besides before.state ptr old) addr ⟨newSize, old.align⟩ ∧
          ledger.live later.state = insert (addr, ⟨newSize, old.align⟩) (ledger.besides before.state ptr old) ∧
          (forall src, ptr = some src -> Carries (HasBytes.bytes before.state) (HasBytes.bytes later.state)
            src addr (min old.size newSize)) ∧
          ((HookCall.alloc ⟨newSize, old.align⟩ (some addr) ∈ calls ∧
              HookCall.givenBack calls = held ptr old) ∨
            (HookCall.alloc ⟨newSize, old.align⟩ (some addr) ∉ calls ∧ HookCall.givenBack calls = []))
    | none =>
        (0 < newSize ∧ ledger.live later.state = ledger.live before.state ∧
            Intact (ledger.live before.state) (HasBytes.bytes before.state) (HasBytes.bytes later.state) ∧
            HookCall.givenBack calls = []) ∨
          (newSize = 0 ∧ ledger.live later.state = ledger.besides before.state ptr old ∧
            HookCall.givenBack calls = held ptr old)

/-- The allocator itself resized the block. -/
theorem Reallocates.of_resizes {later : Traced S} {calls : List HookCall}
    (resizes : ledger.Resizes ptr old newSize before.state (some addr) later.state) (some_ : 0 < newSize)
    (called : later.calls = before.calls ++ calls) (attempts : forall call, call ∈ calls -> call.Attempts) :
    ledger.Reallocates (some ptr) old newSize before (some addr) later := by
  rcases resizes.outcome with ⟨isFresh, live, carries⟩
  rw [← besides_some] at isFresh live
  refine ⟨resizes.good, ?_, calls, called, some_, isFresh, live, ?_, Or.inr ⟨?_, ?_⟩⟩
  · rw [besides_some]
    exact resizes.intact
  · rintro src ⟨⟩
    exact carries
  · exact HookCall.alloc_not_mem_attempts attempts
  · exact HookCall.givenBack_attempts attempts

/-- What is tried first and refused takes nothing away from what comes after it. -/
theorem Reallocates.after_refusal {middle later : Traced S} {answer : Option Addr} {calls : List HookCall}
    (resizes : ledger.Resizes ptr old newSize before.state none middle.state)
    (called : middle.calls = before.calls ++ calls) (attempts : forall call, call ∈ calls -> call.Attempts)
    (live : (ptr, old) ∈ ledger.live before.state)
    (then_ : ledger.Reallocates (some ptr) old newSize middle answer later) :
    ledger.Reallocates (some ptr) old newSize before answer later := by
  rcases resizes.outcome with ⟨sameLive, kept⟩
  rcases then_ with ⟨good, intact, more, calledThen, outcome⟩
  have sameBesides : ledger.besides middle.state (some ptr) old = ledger.besides before.state (some ptr) old := by
    rw [besides, besides, sameLive]
  have none_ := HookCall.givenBack_attempts attempts
  rw [sameBesides] at intact
  refine ⟨good, (kept.anti Set.sdiff_subset).trans intact, calls ++ more, ?_, ?_⟩
  · rw [calledThen, called, List.append_assoc]
  · cases answer with
    | none =>
        rw [sameBesides, sameLive] at outcome
        rw [HookCall.givenBack_append, none_, List.nil_append]
        refine outcome.imp_left ?_
        rintro ⟨some_, liveLater, intactLater, nothing⟩
        exact ⟨some_, liveLater, kept.trans intactLater, nothing⟩
    | some addr =>
        rw [sameBesides] at outcome
        rcases outcome with ⟨some_, isFresh, liveLater, carries, back⟩
        refine ⟨some_, isFresh, liveLater, ?_, ?_⟩
        · rintro src ⟨⟩
          exact (kept.carries live (Nat.min_le_left _ _)).trans (carries ptr rfl)
        · rw [HookCall.givenBack_append, none_, List.nil_append, List.mem_append,
            or_iff_right (HookCall.alloc_not_mem_attempts attempts)]
          exact back

/-- The last resort: a new block, the bytes copied, and the old block given back. -/
theorem Meets.ends_copy (meets : ledger.Meets al) (good : ledger.good before.state)
    (live : (ptr, old) ∈ ledger.live before.state) (asked : Layout.Asked ⟨newSize, old.align⟩)
    (gives : ledger.gives old.align) (some_ : 0 < newSize) (sized : 0 < old.size) :
    Ends (do
      match ← AlVtable.allocate al.traced ⟨newSize, old.align⟩ with
      | none => return none
      | some fresh =>
          AlVtable.copyBytes fresh ptr (if old.size < newSize then old.size else newSize)
          AlVtable.deallocate al.traced (some ptr) old
          return some fresh) before (ledger.Reallocates (some ptr) old newSize before) := by
  simp only [ends_bind]
  refine (meets.ends_allocate good asked gives some_).mono ?_
  rintro answer middle ⟨grants, calls⟩
  cases answer with
  | none =>
      refine (ends_pure _ _ _).mpr ⟨grants.good, ?_, _, calls, Or.inl ⟨some_, grants.outcome, grants.intact, rfl⟩⟩
      exact grants.intact.anti Set.sdiff_subset
  | some fresh =>
      rcases grants.outcome with ⟨isFresh, grown⟩
      have count_eq : (if old.size < newSize then old.size else newSize) = min old.size newSize := by
        split <;> omega
      simp only [ends_bind]
      rw [count_eq]
      refine (meets.ends_copyBytes (fresh, ⟨newSize, old.align⟩) ptr grants.good grown
        isFresh.apart (Nat.min_le_right _ _)).mono ?_
      rintro ⟨⟩ copied ⟨goodThen, liveThen, intactThen, carried, callsThen⟩
      have stillLive : (ptr, old) ∈ ledger.live copied.state := by
        rw [liveThen]
        exact Set.mem_insert_of_mem _ live
      refine (meets.ends_deallocate goodThen stillLive asked.isAlign sized).mono ?_
      rintro ⟨⟩ later ⟨releases, callsLater⟩
      have different : ((fresh, ⟨newSize, old.align⟩) : Nat × Layout) ≠ (ptr, old) := by
        intro same
        have apart := isFresh.apart (ptr, old) live
        rw [← same] at apart
        unfold Region.Apart Parent.region Region.stop at apart
        simp only at apart
        omega
      have liveLater : ledger.live later.state =
          insert (fresh, ⟨newSize, old.align⟩) (ledger.live before.state \ {(ptr, old)}) := by
        rw [releases.live, liveThen, Set.insert_sdiff_of_notMem _ (fun inside => different (Set.mem_singleton_iff.mp inside))]
      refine (ends_pure _ _ _).mpr ⟨releases.good, ?_,
        [HookCall.alloc ⟨newSize, old.align⟩ (some fresh), HookCall.dealloc ptr old], ?_, some_, ?_, ?_, ?_, ?_⟩
      · rw [besides_some]
        refine (grants.intact.trans intactThen).anti Set.sdiff_subset |>.trans (releases.intact.anti ?_)
        rw [liveThen]
        exact Set.sdiff_subset_sdiff_left (Set.subset_insert _ _)
      · rw [callsLater, callsThen, calls, List.append_assoc]
        rfl
      · rw [besides_some]
        exact ⟨isFresh.real, isFresh.room, isFresh.aligned, fun block inside => isFresh.apart block inside.1⟩
      · rw [besides_some, liveLater]
      · rintro src ⟨⟩
        have kept : Carries (HasBytes.bytes before.state) (HasBytes.bytes middle.state) ptr ptr (min old.size newSize) :=
          grants.intact.carries live (Nat.min_le_left _ _)
        have inside : ((fresh, ⟨newSize, old.align⟩) : Nat × Layout) ∈ ledger.live copied.state \ {(ptr, old)} := by
          rw [liveThen]
          exact ⟨Set.mem_insert _ _, different⟩
        exact (kept.trans carried).trans (releases.intact.carries inside (Nat.min_le_right _ _))
      · exact Or.inl ⟨List.mem_cons_self, rfl⟩

/-- Whatever the allocator leaves out, refuses or moves, `tda_realloc` keeps its contract. -/
theorem Meets.ends_reallocate (meets : ledger.Meets al) {ptr : Option Addr} (good : ledger.good before.state)
    (holds : ledger.Holds before.state ptr old) (asked : Layout.Asked ⟨newSize, old.align⟩)
    (gives : ledger.gives old.align) :
    Ends (AlVtable.reallocate al.traced ptr old newSize) before
      (ledger.Reallocates ptr old newSize before) := by
  have isAlign : Layout.isAlign old.align = true := asked.isAlign
  simp only [AlVtable.reallocate, ends_bind, ends_require, isAlign, holds.nothing, true_and]
  by_cases nothing : newSize = 0
  · rw [if_pos nothing]
    simp only [ends_bind]
    cases ptr with
    | none =>
        simp only [AlVtable.deallocate, ends_bind, ends_require, true_or, isAlign, true_and, ends_pure]
        refine ⟨good, Intact.refl _ _, [], (List.append_nil _).symm, Or.inr ⟨nothing, ?_, rfl⟩⟩
        rw [besides_none]
    | some addr =>
        have live : (addr, old) ∈ ledger.live before.state := holds.live _ List.mem_cons_self
        have sized : 0 < old.size := Nat.pos_of_ne_zero fun empty => nomatch holds.nothing.mpr empty
        refine (meets.ends_deallocate good live isAlign sized).mono ?_
        rintro ⟨⟩ later ⟨releases, called⟩
        refine (ends_pure _ _ _).mpr ⟨releases.good, ?_, _, called, Or.inr ⟨nothing, ?_, rfl⟩⟩
        · rw [besides_some]
          exact releases.intact
        · rw [besides_some, releases.live]
  · rw [if_neg nothing]
    have some_ : 0 < newSize := Nat.pos_of_ne_zero nothing
    cases ptr with
    | none =>
        refine (meets.ends_allocate good asked gives some_).mono ?_
        rintro answer later ⟨grants, called⟩
        refine ⟨grants.good, ?_, _, called, ?_⟩
        · rw [besides_none]
          exact grants.intact
        · cases answer with
          | none => exact Or.inl ⟨some_, grants.outcome, grants.intact, rfl⟩
          | some addr =>
              rw [besides_none]
              exact ⟨some_, grants.outcome.1, grants.outcome.2, fun _ none_ => (nomatch none_),
                Or.inl ⟨List.mem_singleton_self _, rfl⟩⟩
    | some addr =>
        have live : (addr, old) ∈ ledger.live before.state := holds.live _ List.mem_cons_self
        have sized : 0 < old.size := Nat.pos_of_ne_zero fun empty => nomatch holds.nothing.mpr empty
        simp only [ends_bind]
        refine (meets.ends_resizeInPlace good live isAlign sized some_ asked.size).mono ?_
        rintro done middle ⟨resizes, calls, called, attempts⟩
        cases done with
        | true =>
            simp only [if_true, ends_pure]
            exact Reallocates.of_resizes resizes some_ called attempts
        | false =>
            rw [if_neg Bool.false_ne_true] at resizes
            have stillLive : (addr, old) ∈ ledger.live middle.state := resizes.outcome.1.symm ▸ live
            simp only [Bool.false_eq_true, if_false, ends_bind]
            refine (meets.ends_moveByHook resizes.good stillLive isAlign sized some_ asked.size).mono ?_
            rintro moved then_ ⟨moves, tried, calledThen, attemptsThen⟩
            cases moved with
            | some other =>
                refine (ends_pure _ _ _).mpr ?_
                exact (Reallocates.of_resizes moves some_ calledThen attemptsThen).after_refusal resizes called
                  attempts live
            | none =>
                have liveThen : (addr, old) ∈ ledger.live then_.state := moves.outcome.1.symm ▸ stillLive
                refine (meets.ends_copy moves.good liveThen asked gives some_ sized).mono ?_
                intro answer later copied
                exact (copied.after_refusal moves calledThen attemptsThen stillLive).after_refusal resizes called
                  attempts live

/-! ## What `tda_alloc_zeroed` gives -/

/-- The block is zeroed by the hook, or by the wrapper where there is no hook. -/
theorem Meets.ends_allocateZeroed (meets : ledger.Meets al) (good : ledger.good before.state)
    (asked : layout.Asked) (gives : ledger.gives layout.align) :
    Ends (AlVtable.allocateZeroed al.traced layout) before fun answer later =>
      ledger.Grants layout before.state answer later.state ∧ forall addr, answer = some addr ->
        0 < layout.size ∧ forall offset, offset < layout.size -> HasBytes.bytes later.state (addr + offset) = 0 := by
  simp only [AlVtable.allocateZeroed, ends_bind, ends_require, asked.isAlign, true_and]
  by_cases empty : layout.size = 0
  · simp only [if_pos empty, ends_pure]
    exact ⟨⟨good, Intact.refl _ _, rfl⟩, fun _ none_ => absurd none_.symm (Option.some_ne_none _)⟩
  · rw [if_neg empty]
    have some_ : 0 < layout.size := Nat.pos_of_ne_zero empty
    cases there : al.allocZeroed with
    | some hook =>
        simp only [AlVtable.traced, there, Option.map_some, ends_bind, Traced.ends_observe, ends_require,
          ends_pure]
        refine (meets.allocZeroed hook there before.state layout good asked gives some_).mono ?_
        rintro answer later ⟨grants, zeroed⟩
        refine ⟨?_, grants, fun addr same => ⟨some_, zeroed addr same⟩⟩
        cases answer with
        | none => rfl
        | some addr => exact (AlVtable.meets_some asked.isAlign).mpr grants.outcome.1.aligned
    | none =>
        simp only [there, AlVtable.traced, Option.map_none]
        change Ends (AlVtable.allocate al.traced layout >>= _) before _
        rw [ends_bind]
        refine (meets.ends_allocate good asked gives some_).mono ?_
        rintro answer middle ⟨grants, _⟩
        cases answer with
        | none => exact (ends_pure _ _ _).mpr ⟨grants, fun _ none_ => absurd none_.symm (Option.some_ne_none _)⟩
        | some addr =>
            rcases grants.outcome with ⟨isFresh, grown⟩
            have inside : (addr, layout) ∈ ledger.live middle.state := by
              rw [grown]
              exact Set.mem_insert _ _
            have written := meets.write middle.state (addr, layout) ⟨addr, layout.size⟩ (fun _ => 0) grants.good inside
              (Region.Within.refl _)
            have now : HasBytes.bytes (HasBytes.withBytes ((HasBytes.bytes middle.state).overwrite ⟨addr, layout.size⟩
                fun _ => 0) middle.state) = (HasBytes.bytes middle.state).overwrite ⟨addr, layout.size⟩ fun _ => 0 :=
              HasBytes.bytes_withBytes _ _
            simp only [ends_bind, AlVtable.setBytes, ends_modify, ends_pure]
            refine ⟨⟨written.1, ?_, isFresh, written.2.trans grown⟩, ?_⟩
            · refine grants.intact.trans ?_
              change Intact _ _ (HasBytes.bytes (HasBytes.withBytes _ middle.state))
              exact now.symm ▸ Intact.of_keeps (Bytes.keeps_overwrite _ _ _) isFresh.apart
            · rintro _ ⟨⟩
              refine ⟨some_, fun offset low => ?_⟩
              change HasBytes.bytes (HasBytes.withBytes _ middle.state) _ = _
              have covers : Region.Covers ⟨addr, layout.size⟩ (addr + offset) :=
                ⟨Nat.le_add_right _ _, Nat.add_lt_add_left low _⟩
              exact (congrFun now _).trans (if_pos covers)

/-- Over every allocator that meets the contract of its hooks, `tda_realloc` meets its own, and
`tda_alloc_zeroed` gives zeroed blocks. -/
theorem Meets.reallocates (meets : ledger.Meets al) (good : ledger.good before.state) :
    (forall ptr old newSize, ledger.Holds before.state ptr old -> Layout.Asked ⟨newSize, old.align⟩ ->
      ledger.gives old.align ->
      Ends (AlVtable.reallocate al.traced ptr old newSize) before
        (ledger.Reallocates ptr old newSize before)) ∧
    (forall layout, layout.Asked -> ledger.gives layout.align ->
      Ends (AlVtable.allocateZeroed al.traced layout) before fun answer later =>
        ledger.Grants layout before.state answer later.state ∧ forall addr, answer = some addr ->
          0 < layout.size ∧
            forall offset, offset < layout.size -> HasBytes.bytes later.state (addr + offset) = 0) := by
  constructor
  · intro ptr old newSize holds asked gives
    exact meets.ends_reallocate good holds asked gives
  · intro layout asked gives
    exact meets.ends_allocateZeroed good asked gives

/-- A parent with one block out that refuses to resize or to move it, and then has room for another. -/
def refusing : Parent where
  bytes addr := BitVec.ofNat 8 addr
  out := [(16, ⟨8, 8⟩)]
  answers asked := ⟨if asked = 2 then some 64 else none, false, fun _ => 0⟩
  asked := 0

theorem reallocates_refusing :
    Ends (AlVtable.reallocate Parent.toAl.traced (some 16) ⟨8, 8⟩ 24) ⟨refusing, []⟩
      (Parent.ledger.Reallocates (some 16) ⟨8, 8⟩ 24 ⟨refusing, []⟩) := by
  have good : Parent.ledger.good (⟨refusing, []⟩ : Traced Parent).state :=
    ⟨List.nodup_singleton _, List.pairwise_singleton _ _⟩
  refine (Meets.reallocates Parent.meets good).1 (some 16) ⟨8, 8⟩ 24 ⟨?_, ?_⟩ ⟨by decide, by decide, by decide⟩ trivial
  · exact ⟨(nomatch ·), (nomatch ·)⟩
  · intro block mine
    exact mine

end Ledger
end TerseDsa
