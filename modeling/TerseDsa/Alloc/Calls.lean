import TerseDsa.Alloc.Vtable
import TerseDsa.Foundation.Matching

namespace TerseDsa

open Foundation Run

/-!
# Calls of the wrappers

A caller of an allocator calls the wrappers, one after another, and writes into
memory in between.  Two allocators whose wrappers do the same for each of the
five hooks do the same for all calls, `tda_realloc` among them.
-/

/-- One call of a wrapper, or a write of the caller's own. -/
inductive AlCall where
  | alloc (layout : Layout)
  | allocZeroed (layout : Layout)
  | resize (ptr : Addr) (old : Layout) (newSize : Nat)
  | remap (ptr : Addr) (old : Layout) (newSize : Nat)
  | realloc (ptr : Option Addr) (old : Layout) (newSize : Nat)
  | dealloc (ptr : Option Addr) (layout : Layout)
  | set (addr count : Nat) (byte : Byte)

/-- What a call returns. -/
inductive AlResult where
  | block (ptr : Option Addr)
  | done (done : Bool)
  | nothing
deriving DecidableEq

namespace AlCall

variable {S : Type} [HasBytes S]

/-- Make the call. -/
def issue (al : AlVtable S) : AlCall -> Run S AlResult
  | alloc layout => AlResult.block <$> al.allocate layout
  | allocZeroed layout => AlResult.block <$> al.allocateZeroed layout
  | resize ptr old newSize => AlResult.done <$> al.resizeInPlace ptr old newSize
  | remap ptr old newSize => AlResult.block <$> al.moveByHook ptr old newSize
  | realloc ptr old newSize => AlResult.block <$> al.reallocate ptr old newSize
  | dealloc ptr layout => (fun _ => AlResult.nothing) <$> al.deallocate ptr layout
  | set addr count byte => (fun _ => AlResult.nothing) <$> AlVtable.setBytes addr count byte

/-- Make the calls, one after another. -/
def issueAll (al : AlVtable S) : List AlCall -> Run S (List AlResult)
  | [] => pure []
  | call :: rest => do
      let result ← call.issue al
      let results ← issueAll al rest
      return result :: results

end AlCall

namespace AlVtable

variable {S T : Type} {rel : S -> T -> Prop} {upper : AlVtable S} {lower : AlVtable T}

/-- The wrappers around the five hooks do the same. -/
structure Matches (rel : S -> T -> Prop) [HasBytes S] [HasBytes T] (upper : AlVtable S) (lower : AlVtable T) :
    Prop where
  bytes : forall s t, rel s t -> HasBytes.bytes s = HasBytes.bytes t
  withBytes : forall s t bytes, rel s t -> rel (HasBytes.withBytes bytes s) (HasBytes.withBytes bytes t)
  allocate : forall layout, Run.Matches rel Eq (upper.allocate layout) (lower.allocate layout)
  allocateZeroed : forall layout,
    Run.Matches rel Eq (upper.allocateZeroed layout) (lower.allocateZeroed layout)
  resizeInPlace : forall ptr old newSize,
    Run.Matches rel Eq (upper.resizeInPlace ptr old newSize) (lower.resizeInPlace ptr old newSize)
  moveByHook : forall ptr old newSize,
    Run.Matches rel Eq (upper.moveByHook ptr old newSize) (lower.moveByHook ptr old newSize)
  deallocate : forall ptr layout,
    Run.Matches rel Eq (upper.deallocate ptr layout) (lower.deallocate ptr layout)

namespace Matches

variable [HasBytes S] [HasBytes T]

theorem setBytes (matches_ : Matches rel upper lower) (addr count : Nat) (byte : Byte) :
    Run.Matches rel Eq (AlVtable.setBytes addr count byte) (AlVtable.setBytes addr count byte) := by
  apply Run.Matches.of_modify
  intro s t related
  rw [matches_.bytes s t related]
  exact matches_.withBytes s t _ related

theorem copyBytes (matches_ : Matches rel upper lower) (dst src count : Nat) :
    Run.Matches rel Eq (AlVtable.copyBytes dst src count) (AlVtable.copyBytes dst src count) := by
  apply Run.Matches.of_modify
  intro s t related
  rw [matches_.bytes s t related]
  exact matches_.withBytes s t _ related

theorem reallocate (matches_ : Matches rel upper lower) (ptr : Option Addr) (old : Layout) (newSize : Nat) :
    Run.Matches rel Eq (upper.reallocate ptr old newSize) (lower.reallocate ptr old newSize) := by
  unfold AlVtable.reallocate
  refine (Run.Matches.of_require _).bind_eq fun _ => (Run.Matches.of_require _).bind_eq fun _ => ?_
  by_cases nothing : newSize = 0
  · rw [if_pos nothing, if_pos nothing]
    exact (matches_.deallocate ptr old).bind_eq fun _ => Run.Matches.of_pure rfl
  · rw [if_neg nothing, if_neg nothing]
    cases ptr with
    | none => exact matches_.allocate _
    | some addr =>
        refine (matches_.resizeInPlace addr old newSize).bind_eq fun done => ?_
        cases done with
        | true => exact Run.Matches.of_pure rfl
        | false =>
            refine (matches_.moveByHook addr old newSize).bind_eq fun moved => ?_
            cases moved with
            | some other => exact Run.Matches.of_pure rfl
            | none =>
                refine (matches_.allocate _).bind_eq fun fresh => ?_
                cases fresh with
                | none => exact Run.Matches.of_pure rfl
                | some other =>
                    refine (matches_.copyBytes _ _ _).bind_eq fun _ => ?_
                    exact (matches_.deallocate _ _).bind_eq fun _ => Run.Matches.of_pure rfl

/-- Each call does the same. -/
theorem issue (matches_ : Matches rel upper lower) (call : AlCall) :
    Run.Matches rel Eq (call.issue upper) (call.issue lower) := by
  unfold AlCall.issue
  simp only [map_eq_pure_bind]
  cases call with
  | alloc layout => exact (matches_.allocate layout).bind_eq fun _ => Run.Matches.of_pure rfl
  | allocZeroed layout => exact (matches_.allocateZeroed layout).bind_eq fun _ => Run.Matches.of_pure rfl
  | resize ptr old newSize => exact (matches_.resizeInPlace ptr old newSize).bind_eq fun _ => Run.Matches.of_pure rfl
  | remap ptr old newSize => exact (matches_.moveByHook ptr old newSize).bind_eq fun _ => Run.Matches.of_pure rfl
  | realloc ptr old newSize => exact (matches_.reallocate ptr old newSize).bind_eq fun _ => Run.Matches.of_pure rfl
  | dealloc ptr layout => exact (matches_.deallocate ptr layout).bind_eq fun _ => Run.Matches.of_pure rfl
  | set addr count byte => exact (matches_.setBytes addr count byte).bind_eq fun _ => Run.Matches.of_pure rfl

/-- All calls do the same. -/
theorem issueAll (matches_ : Matches rel upper lower) (calls : List AlCall) :
    Run.Matches rel Eq (AlCall.issueAll upper calls) (AlCall.issueAll lower calls) := by
  induction calls with
  | nil => exact Run.Matches.of_pure rfl
  | cons call rest ih =>
      refine (matches_.issue call).bind_eq fun result => ?_
      exact ih.bind_eq fun results => Run.Matches.of_pure rfl

end Matches

/-! ## What a wrapper may return -/

theorem allows_allocate {S : Type} (al : AlVtable S) (layout : Layout) (s : S) :
    Allows (al.allocate layout) s fun ptr _ => meets ptr layout.align = true := by
  unfold allocate
  rw [allows_bind, allows_require]
  intro _
  split
  · exact (allows_pure _ _ _).mpr rfl
  · rw [allows_bind]
    intro ptr later _
    rw [allows_bind, allows_require]
    exact fun aligned => (allows_pure _ _ _).mpr aligned

theorem allows_allocateZeroed [HasBytes S] (al : AlVtable S) (layout : Layout) (s : S) :
    Allows (al.allocateZeroed layout) s fun ptr _ => meets ptr layout.align = true := by
  unfold allocateZeroed
  rw [allows_bind, allows_require]
  intro _
  split
  · exact (allows_pure _ _ _).mpr rfl
  · split
    · rw [allows_bind]
      intro ptr later _
      rw [allows_bind, allows_require]
      exact fun aligned => (allows_pure _ _ _).mpr aligned
    · rw [allows_bind]
      refine (allows_allocate al layout s).mono fun ptr later aligned => ?_
      cases ptr with
      | none => exact (allows_pure _ _ _).mpr aligned
      | some addr =>
          rw [allows_bind]
          exact (allows_modify _ _ _).mpr ((allows_pure _ _ _).mpr aligned)

theorem allows_moveByHook {S : Type} (al : AlVtable S) (ptr : Addr) (old : Layout) (newSize : Nat) (s : S) :
    Allows (al.moveByHook ptr old newSize) s fun moved _ => meets moved old.align = true := by
  unfold moveByHook
  rw [allows_bind, allows_require]
  intro _
  rw [allows_bind, allows_require]
  intro _
  split
  · exact (allows_pure _ _ _).mpr rfl
  · rw [allows_bind]
    intro moved later _
    rw [allows_bind, allows_require]
    exact fun aligned => (allows_pure _ _ _).mpr aligned

/-! ## Calls written down -/

theorem observe_matches {α : Type} (call : α -> HookCall) (hook : Run S α) :
    Run.Matches Traced.Shows Eq (Traced.observe call hook) hook := by
  have hidden : Run.Matches Traced.Shows Eq
      (zoom Traced.state (fun state traced => { traced with state := state }) hook) hook := by
    have own : Run.Matches Eq Eq hook hook := Run.Matches.refl hook
    exact own.zoom_left (fun _ _ shows => shows) fun _ _ _ _ equal _ => equal
  refine hidden.bind_silent fun answer => ?_
  exact Run.Matches.silent_bind (fun _ _ shows => shows) (Run.Matches.of_pure rfl)

theorem allocate_traced (al : AlVtable S) (layout : Layout) :
    Run.Matches Traced.Shows Eq (al.traced.allocate layout) (al.allocate layout) := by
  unfold allocate
  refine (Run.Matches.of_require _).bind_eq fun _ => ?_
  split
  · exact Run.Matches.of_pure rfl
  · refine (observe_matches _ _).bind_eq fun ptr => ?_
    exact (Run.Matches.of_require _).bind_eq fun _ => Run.Matches.of_pure rfl

/-- Writing the hook calls down changes nothing else. -/
theorem traced_matches [HasBytes S] (al : AlVtable S) : Matches Traced.Shows al.traced al where
  bytes _ _ shows := congrArg HasBytes.bytes shows
  withBytes _ _ bytes shows := congrArg (HasBytes.withBytes bytes) shows
  allocate := allocate_traced al
  allocateZeroed layout := by
    unfold allocateZeroed
    refine (Run.Matches.of_require _).bind_eq fun _ => ?_
    split
    · exact Run.Matches.of_pure rfl
    · cases there : al.allocZeroed with
      | some hook =>
          simp only [traced, there, Option.map_some]
          refine (observe_matches _ _).bind_eq fun ptr => ?_
          exact (Run.Matches.of_require _).bind_eq fun _ => Run.Matches.of_pure rfl
      | none =>
          simp only [traced, there, Option.map_none]
          refine (allocate_traced al layout).bind_eq fun ptr => ?_
          cases ptr with
          | none => exact Run.Matches.of_pure rfl
          | some addr =>
              refine Run.Matches.bind_eq ?_ fun _ => Run.Matches.of_pure rfl
              exact Run.Matches.of_modify fun _ _ shows => congrArg
                (fun s => HasBytes.withBytes ((HasBytes.bytes s).fill addr layout.size 0) s) shows
  resizeInPlace ptr old newSize := by
    unfold resizeInPlace
    refine (Run.Matches.of_require _).bind_eq fun _ => (Run.Matches.of_require _).bind_eq fun _ => ?_
    cases there : al.resize with
    | some hook =>
        simp only [traced, there, Option.map_some]
        exact observe_matches _ _
    | none =>
        simp only [traced, there, Option.map_none]
        exact Run.Matches.of_pure rfl
  moveByHook ptr old newSize := by
    unfold moveByHook
    refine (Run.Matches.of_require _).bind_eq fun _ => (Run.Matches.of_require _).bind_eq fun _ => ?_
    cases there : al.remap with
    | some hook =>
        simp only [traced, there, Option.map_some]
        refine (observe_matches _ _).bind_eq fun moved => ?_
        exact (Run.Matches.of_require _).bind_eq fun _ => Run.Matches.of_pure rfl
    | none =>
        simp only [traced, there, Option.map_none]
        exact Run.Matches.of_pure rfl
  deallocate ptr layout := by
    unfold deallocate
    refine (Run.Matches.of_require _).bind_eq fun _ => (Run.Matches.of_require _).bind_eq fun _ => ?_
    cases ptr with
    | none => exact Run.Matches.of_pure rfl
    | some addr => exact observe_matches _ _

end AlVtable
end TerseDsa
