import TerseDsa.Alloc.Calls
import TerseDsa.Alloc.Parent

namespace TerseDsa

open Foundation

/-!
# The log allocator

A log prints each call of a hook and passes it on to the wrapper of its parent.
It has all five hooks, also over a parent that lacks some of them.  How `%p`
prints a pointer is up to the platform.
-/

/-- `tda_Log`.  It has a parent and a stream while it is live; `lines` is what was printed. -/
structure Log where
  live : Bool
  lines : List String

namespace Log

variable {P : Type}

/-- `log_line`. -/
def line (text : String) : Run (World Log P) Unit :=
  modify fun world => { world with ctx := { world.ctx with lines := world.ctx.lines ++ [text] } }

/-- `ASSERT_LOG`. -/
def assertLog : Run (World Log P) Unit := do
  let self ← World.self
  Run.require (self.live = true)

/-- `tda_log_init`, on a stream with the given lines. -/
def init (lines : List String) : Log := ⟨true, lines ++ ["tda log: log allocator created\n"]⟩

/-- `tda_log_deinit`. -/
def deinit : Run (World Log P) Unit := do
  let self ← World.self
  if self.live = true then
    assertLog
    line "tda log: log allocator destroyed\n"
    modify fun world => { world with ctx := { world.ctx with live := false } }

section Hooks

variable [HasBytes P] (showPtr : Option Addr -> String) (parent : AlVtable P)

/-- `log_alloc`. -/
def alloc (layout : Layout) : Run (World Log P) (Option Addr) := do
  assertLog
  Run.require (0 < layout.size)
  let ptr ← World.under (parent.allocate layout)
  line s!"tda log: alloc size = {layout.size} align = {layout.align} -> {showPtr ptr}\n"
  return ptr

/-- `log_alloc_zeroed`. -/
def allocZeroed (layout : Layout) : Run (World Log P) (Option Addr) := do
  assertLog
  Run.require (0 < layout.size)
  let ptr ← World.under (parent.allocateZeroed layout)
  line s!"tda log: alloc_zeroed size = {layout.size} align = {layout.align} -> {showPtr ptr}\n"
  return ptr

/-- `log_resize`. -/
def resize (ptr : Addr) (old : Layout) (newSize : Nat) : Run (World Log P) Bool := do
  assertLog
  Run.require (0 < old.size)
  Run.require (0 < newSize)
  let done ← World.under (parent.resizeInPlace ptr old newSize)
  let verdict := if done then "in place" else "refused"
  line s!"tda log: resize {showPtr (some ptr)} size = {old.size} -> {newSize} align = {old.align}: {verdict}\n"
  return done

/-- `log_remap`. -/
def remap (ptr : Addr) (old : Layout) (newSize : Nat) : Run (World Log P) (Option Addr) := do
  assertLog
  Run.require (0 < old.size)
  Run.require (0 < newSize)
  let moved ← World.under (parent.moveByHook ptr old newSize)
  line s!"tda log: remap {showPtr (some ptr)} size = {old.size} -> {newSize} align = {old.align} -> {showPtr moved}\n"
  return moved

/-- `log_dealloc`. -/
def dealloc (ptr : Addr) (layout : Layout) : Run (World Log P) Unit := do
  assertLog
  line s!"tda log: dealloc {showPtr (some ptr)} size = {layout.size} align = {layout.align}\n"
  World.under (parent.deallocate (some ptr) layout)

/-- `tda_log_to_al`. -/
def toAl : AlVtable (World Log P) where
  alloc := alloc showPtr parent
  allocZeroed := some (allocZeroed showPtr parent)
  resize := some (resize showPtr parent)
  remap := some (remap showPtr parent)
  dealloc := dealloc showPtr parent

end Hooks

/-! ## What the hooks do to the parent -/

/-- The log is live, which none of its hooks changes. -/
def Live (world : World Log P) : Prop := world.ctx.live = true

/-- A live log over the state of its parent. -/
def Over (world : World Log P) (below : P) : Prop := Live world ∧ world.below = below

variable {α : Type} {next : Unit -> Run (World Log P) α} {shown : Run P α}

theorem line_bind {text : String} (rest : Run.Matches Over Eq (next ()) shown) :
    Run.Matches Over Eq (line text >>= next) shown :=
  Run.Matches.silent_bind (fun _ _ onto => onto) rest

theorem assertLog_bind (rest : Run.Matches Over Eq (next ()) shown) :
    Run.Matches Over Eq (assertLog >>= next) shown := by
  intro world below onto
  have asserted : (Run.require (world.ctx.live = true) : Run (World Log P) Unit) = pure () :=
    Run.require_of onto.1
  change Run.Matched _ _ (((Run.require (world.ctx.live = true) : Run (World Log P) Unit) world).bind
    fun pair => next pair.1 pair.2) _
  rw [asserted]
  exact rest world below onto

theorem under_matches (run : Run P α) : Run.Matches Over Eq (World.under run) run :=
  (Run.Matches.refl run).zoom_left (fun _ _ onto => onto.2) fun _ _ _ _ equal onto => ⟨onto.1, equal⟩

section Wrappers

variable [HasBytes P] (showPtr : Option Addr -> String) (parent : AlVtable P)

theorem allocate_matches (layout : Layout) :
    Run.Matches Over Eq ((toAl showPtr parent).allocate layout) (parent.allocate layout) := by
  by_cases empty : layout.size = 0
  · unfold AlVtable.allocate
    rw [if_pos empty, if_pos empty]
    exact (Run.Matches.of_require _).bind_eq fun _ => Run.Matches.of_pure rfl
  · refine Run.Matches.require_early fun isAlign => ?_
    rw [if_neg empty]
    change Run.Matches _ _ (alloc showPtr parent layout >>= _) (parent.allocate layout)
    simp only [alloc, bind_assoc]
    refine assertLog_bind (Run.Matches.require_bind (Nat.pos_of_ne_zero empty) ?_)
    refine (under_matches _).bind_checked (AlVtable.allows_allocate parent layout) fun ptr aligned => ?_
    refine line_bind ?_
    rw [pure_bind]
    exact Run.Matches.require_bind aligned (Run.Matches.of_pure rfl)

theorem allocateZeroed_matches (layout : Layout) :
    Run.Matches Over Eq ((toAl showPtr parent).allocateZeroed layout) (parent.allocateZeroed layout) := by
  by_cases empty : layout.size = 0
  · unfold AlVtable.allocateZeroed
    rw [if_pos empty, if_pos empty]
    exact (Run.Matches.of_require _).bind_eq fun _ => Run.Matches.of_pure rfl
  · refine Run.Matches.require_early fun isAlign => ?_
    rw [if_neg empty]
    change Run.Matches _ _ (allocZeroed showPtr parent layout >>= _) (parent.allocateZeroed layout)
    simp only [allocZeroed, bind_assoc]
    refine assertLog_bind (Run.Matches.require_bind (Nat.pos_of_ne_zero empty) ?_)
    refine (under_matches _).bind_checked (AlVtable.allows_allocateZeroed parent layout) fun ptr aligned => ?_
    refine line_bind ?_
    rw [pure_bind]
    exact Run.Matches.require_bind aligned (Run.Matches.of_pure rfl)

theorem resizeInPlace_matches (ptr : Addr) (old : Layout) (newSize : Nat) :
    Run.Matches Over Eq ((toAl showPtr parent).resizeInPlace ptr old newSize)
      (parent.resizeInPlace ptr old newSize) := by
  refine Run.Matches.require_early fun sized => Run.Matches.require_bind_early fun isAlign => ?_
  change Run.Matches _ _ (resize showPtr parent ptr old newSize) (parent.resizeInPlace ptr old newSize)
  simp only [resize]
  refine assertLog_bind (Run.Matches.require_bind sized.1 (Run.Matches.require_bind sized.2 ?_))
  exact (under_matches _).bind_silent fun done => line_bind (Run.Matches.of_pure rfl)

theorem moveByHook_matches (ptr : Addr) (old : Layout) (newSize : Nat) :
    Run.Matches Over Eq ((toAl showPtr parent).moveByHook ptr old newSize)
      (parent.moveByHook ptr old newSize) := by
  refine Run.Matches.require_early fun sized => Run.Matches.require_bind_early fun isAlign => ?_
  change Run.Matches _ _ (remap showPtr parent ptr old newSize >>= _) (parent.moveByHook ptr old newSize)
  simp only [remap, bind_assoc]
  refine assertLog_bind (Run.Matches.require_bind sized.1 (Run.Matches.require_bind sized.2 ?_))
  refine (under_matches _).bind_checked (AlVtable.allows_moveByHook parent ptr old newSize) fun moved aligned => ?_
  refine line_bind ?_
  rw [pure_bind]
  exact Run.Matches.require_bind aligned (Run.Matches.of_pure rfl)

theorem deallocate_matches (ptr : Option Addr) (layout : Layout) :
    Run.Matches Over Eq ((toAl showPtr parent).deallocate ptr layout) (parent.deallocate ptr layout) := by
  cases ptr with
  | none =>
      exact (Run.Matches.of_require _).bind_eq fun _ => (Run.Matches.of_require _).bind_eq fun _ => Run.Matches.of_pure rfl
  | some addr =>
      refine Run.Matches.require_early fun sized => Run.Matches.require_bind_early fun isAlign => ?_
      change Run.Matches _ _ (dealloc showPtr parent addr layout) (parent.deallocate (some addr) layout)
      simp only [dealloc]
      exact assertLog_bind (line_bind (under_matches _))

/-- The wrappers over the log do what those over its parent do. -/
theorem matches_parent : AlVtable.Matches Over (toAl showPtr parent) parent where
  bytes _ _ onto := congrArg HasBytes.bytes onto.2
  withBytes _ _ bytes onto := ⟨onto.1, congrArg (HasBytes.withBytes bytes) onto.2⟩
  allocate := allocate_matches showPtr parent
  allocateZeroed := allocateZeroed_matches showPtr parent
  resizeInPlace := resizeInPlace_matches showPtr parent
  moveByHook := moveByHook_matches showPtr parent
  deallocate := deallocate_matches showPtr parent

end Wrappers

/-- All calls made through a live log give the results, the memory and the hook calls of the
parent that they give when they are made on the parent itself, and go wrong exactly if those do. -/
theorem transparent {S : Type} [HasBytes S] (showPtr : Option Addr -> String) (parent : AlVtable S)
    (calls : List AlCall) (world : World Log (Traced S)) (live : Live world) :
    (AlCall.issueAll (toAl showPtr parent.traced) calls world).map (fun pair => (pair.1, pair.2.below)) =
      AlCall.issueAll parent.traced calls world.below :=
  ((matches_parent showPtr parent.traced).issueAll calls).map_eq live

/-- A parent without `alloc_zeroed` that grants whatever is asked for at one address. -/
def granting : Traced Parent := ⟨⟨fun _ => 255, [], fun _ => ⟨some 64, true, fun _ => 255⟩, 0⟩, []⟩

theorem transparent_granting :
    (AlCall.issueAll (toAl (fun _ => "p") Parent.toAl.traced)
        [.allocZeroed ⟨16, 8⟩, .realloc (some 64) ⟨16, 8⟩ 32, .dealloc (some 64) ⟨32, 8⟩]
        ⟨init [], granting⟩).map (fun pair => (pair.1, pair.2.below)) =
      AlCall.issueAll Parent.toAl.traced
        [.allocZeroed ⟨16, 8⟩, .realloc (some 64) ⟨16, 8⟩ 32, .dealloc (some 64) ⟨32, 8⟩] granting :=
  transparent (fun _ => "p") Parent.toAl _ ⟨init [], granting⟩ rfl

end Log
end TerseDsa
