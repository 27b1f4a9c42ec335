import TerseDsa.Debug.Safety
import TerseDsa.Debug.Twins

namespace TerseDsa

open Foundation Run AlVtable

/-!
# The quarantine is first in, first out

Over a parent whose calls are written down, each function of the debug allocator
pushes some blocks into the quarantine, and what drops out at the other end is
what the parent gets back, in order and nothing else.
-/

namespace Debug

variable {P α : Type} {al : AlVtable P} {before middle later world : Worlds (Traced P)}
  {pushed released more moreReleased : List FreedBlock} {layout : Layout} {ptr : Nat}

/-- The calls of the parent's hooks so far. -/
def calls (world : Worlds (Traced P)) : List HookCall := world.below.below.calls

/-- The call that gives a block back to the parent, with its guard. -/
def returning (freed : FreedBlock) : HookCall :=
  .dealloc (guarded freed.ptr freed.layout).1 (guarded freed.ptr freed.layout).2

/-- Blocks were pushed into the quarantine, and those that dropped out went to the parent. -/
structure Moved (before later : Worlds (Traced P)) (pushed released : List FreedBlock) : Prop where
  parent : later.ctx.parent = before.ctx.parent
  queue : before.ctx.waiting ++ pushed = released ++ later.ctx.waiting
  calls : calls later = calls before ++ released.map returning

namespace Moved

theorem nothing (parent : later.ctx.parent = before.ctx.parent) (queue : later.ctx.waiting = before.ctx.waiting)
    (same : Debug.calls later = Debug.calls before) : Moved before later [] [] where
  parent := parent
  queue := by rw [List.append_nil, List.nil_append, queue]
  calls := by rw [List.map_nil, List.append_nil, same]

theorem trans (first : Moved before middle pushed released) (second : Moved middle later more moreReleased) :
    Moved before later (pushed ++ more) (released ++ moreReleased) where
  parent := second.parent.trans first.parent
  queue := by
    rw [← List.append_assoc, first.queue, List.append_assoc, second.queue, List.append_assoc]
  calls := by rw [second.calls, first.calls, List.map_append, List.append_assoc]

end Moved

/-! ## Rules for what the pieces allow -/

theorem allows_self {post : Debug (Traced P) -> Worlds (Traced P) -> Prop} :
    Allows World.self world post <-> post world.ctx world :=
  allows_pure (S := Worlds (Traced P)) _ _ _

theorem allows_setSelf {self : Debug (Traced P)} {post : Unit -> Worlds (Traced P) -> Prop} :
    Allows (World.setSelf self) world post <-> post () { world with ctx := self } :=
  allows_modify _ _ _

theorem allows_assertDebug {self : Debug (Traced P)} {parent : AlVtable (Traced P)} (there : self.parent = some parent)
    {post : AlVtable (Traced P) -> Worlds (Traced P) -> Prop} :
    Allows (assertDebug self) world post <-> post parent world := by
  rw [assertDebug, there]
  exact allows_pure _ _ _

theorem allows_observe {call : α -> HookCall} {hook : Run P α} {traced : Traced P} {post : α -> Traced P -> Prop}
    (holds : forall a state, post a ⟨state, traced.calls ++ [call a]⟩) :
    Allows (Traced.observe call hook) traced post := by
  unfold Traced.observe
  rw [allows_bind, allows_zoom]
  intro a state _
  rw [allows_bind, allows_modify, allows_pure]
  exact holds a state

theorem allows_find (table : BlockTable) {post : Option BlockRecord -> Worlds (Traced P) -> Prop}
    (holds : forall found, post found world) : Allows (table.find ptr) world post := by
  intro found later ran
  have alone : Run.Matches (fun s (_ : Unit) => s = world) Eq (table.find ptr) (table.find ptr) :=
    table.find_matches ptr
  rcases alone.ends_eq (t := ()) rfl ran with ⟨_, _, _, _, rfl⟩
  exact holds found

theorem allows_take (table : BlockTable)
    {post : Option BlockRecord × BlockTable -> Worlds (Traced P) -> Prop} (holds : forall pair, post pair world) :
    Allows (table.take ptr) world post := by
  intro pair later ran
  have alone : Run.Matches (fun s (_ : Unit) => s = world) Eq (table.take ptr) (table.take ptr) :=
    table.take_matches ptr
  rcases alone.ends_eq (t := ()) rfl ran with ⟨_, _, _, _, rfl⟩
  exact holds pair

/-- A block is given back to the parent with one call. -/
theorem allows_deallocate {traced : Traced P} {post : Unit -> Traced P -> Prop}
    (holds : forall state, post () ⟨state, traced.calls ++ [.dealloc ptr layout]⟩) :
    Allows (deallocate al.traced (some ptr) layout) traced post := by
  unfold deallocate
  rw [allows_bind, allows_require]
  intro _
  rw [allows_bind, allows_require]
  intro _
  exact allows_observe fun _ state => holds state

/-- A block is asked for with at most one call. -/
theorem allows_allocate {traced : Traced P} {post : Option Addr -> Traced P -> Prop} (nothing : post none traced)
    (holds : forall answer state, post answer ⟨state, traced.calls ++ [.alloc layout answer]⟩) :
    Allows (allocate al.traced layout) traced post := by
  unfold allocate
  rw [allows_bind, allows_require]
  intro _
  split
  · exact (allows_pure _ _ _).mpr nothing
  · rw [allows_bind]
    refine allows_observe fun answer state => ?_
    rw [allows_bind, allows_require]
    exact fun _ => (allows_pure _ _ _).mpr (holds answer state)

/-! ## What each function pushes and releases -/

/-- The newest block goes behind the others. -/
theorem allows_pushNewest (room : before.ctx.quarantineLen < quarantineCap) (freed : FreedBlock) :
    Allows (pushNewest freed) before fun _ later => Moved before later [freed] [] := by
  unfold pushNewest
  rw [allows_bind, allows_self, allows_setSelf]
  refine ⟨rfl, ?_, (List.append_nil _).symm⟩
  exact (DebugProgram.waiting_push room).symm

/-- The table changes at most. -/
theorem allows_checkedEntry (take : Bool) (as_ : String) :
    Allows (checkedEntry ptr layout take as_) before fun _ later => exists table,
      later = { before with ctx := { before.ctx with table := table } } := by
  have settled : forall (verdict : Verdict BlockRecord) (table : BlockTable),
      Allows (pure verdict) { before with ctx := { before.ctx with table := table } }
        fun (_ : Verdict BlockRecord) later =>
          exists table, later = { before with ctx := { before.ctx with table := table } } :=
    fun verdict table => (allows_pure _ _ _).mpr ⟨table, rfl⟩
  unfold checkedEntry
  rw [allows_bind, allows_self]
  dsimp only
  split
  · rw [allows_bind]
    refine allows_take _ fun pair => ?_
    rw [allows_bind, allows_setSelf]
    split
    · split
      · exact settled _ _
      · exact settled _ _
    · split
      · exact settled _ _
      · exact settled _ _
  · rw [allows_bind]
    refine allows_find _ fun found => ?_
    rw [pure_bind, allows_bind, allows_setSelf]
    split
    · split
      · exact settled _ _
      · exact settled _ _
    · split
      · exact settled _ _
      · exact settled _ _

/-- A block that cannot be recorded goes back at once. -/
theorem allows_record [HasBytes P] (block : Nat) (layout withGuard : Layout) (serial : Nat) :
    Allows (record al.traced block layout withGuard serial) before fun verdict later =>
      forall answer, verdict = .ok answer -> later.ctx.parent = before.ctx.parent ∧
        later.ctx.waiting = before.ctx.waiting ∧
        (calls later = calls before ∨ calls later = calls before ++ [.dealloc block withGuard]) := by
  have wrong : forall report later, Allows (pure (.error report) : Run (Worlds (Traced P)) (Verdict (Option Addr)))
      later fun verdict later => forall answer, verdict = .ok answer -> later.ctx.parent = before.ctx.parent ∧
        later.ctx.waiting = before.ctx.waiting ∧
        (calls later = calls before ∨ calls later = calls before ++ [.dealloc block withGuard]) :=
    fun report later => (allows_pure _ _ _).mpr fun _ impossible => nomatch impossible
  unfold record
  rw [allows_bind, allows_self, allows_bind]
  refine allows_find _ fun found => ?_
  split
  · exact wrong _ _
  · split
    · exact wrong _ _
    · rw [allows_bind, allows_onDefault]
      rintro ⟨inserted, table⟩ default _
      rw [allows_bind, allows_setSelf]
      split
      · rw [allows_bind, setBytes, allows_modify, allows_bind, setBytes, allows_modify,
          allows_bind, allows_setSelf, allows_pure]
        exact fun _ _ => ⟨rfl, rfl, Or.inl rfl⟩
      · rw [allows_bind, allows_onParent]
        refine allows_deallocate fun state => ?_
        rw [allows_pure]
        exact fun _ _ => ⟨rfl, rfl, Or.inr rfl⟩

section Functions

variable [HasBytes P] (traced : before.ctx.parent = some al.traced)

include traced

theorem allows_releaseOldest : Allows releaseOldest before fun verdict later =>
    verdict = .ok () -> Moved before later [] [before.ctx.quarantined 0] := by
  unfold releaseOldest
  rw [allows_bind, allows_self, allows_bind, allows_assertDebug traced, allows_bind, allows_require]
  intro some_
  rw [allows_bind, allows_setSelf, allows_bind]
  refine allows_demand fun withGuard guard_eq => ?_
  rw [allows_bind, Run.allows_get]
  split
  · rw [allows_bind, allows_onParent]
    refine allows_deallocate fun state => ?_
    rw [allows_pure]
    intro _
    rcases Nat.exists_eq_add_of_lt some_ with ⟨len, more⟩
    rw [Nat.zero_add] at more
    have oldest := DebugProgram.waiting_pop more
    have isGuarded : withGuard = (guarded (before.ctx.quarantined 0).ptr (before.ctx.quarantined 0).layout).2 := by
      unfold ckdParentLayout ckdAdd at guard_eq
      split at guard_eq
      · exact (Option.some.inj guard_eq).symm
      · cases guard_eq
    refine ⟨rfl, ?_, ?_⟩
    · rw [List.append_nil, oldest]
      simp only [more, Nat.add_sub_cancel, List.singleton_append]
    · simp only [isGuarded]
      rfl
  · rw [allows_pure]
    exact fun impossible => nomatch impossible

/-- A full quarantine releases its oldest block first. -/
theorem allows_quarantinePush (ring : before.ctx.quarantineLen ≤ quarantineCap) (freed : FreedBlock) :
    Allows (quarantinePush freed) before fun verdict later => verdict = .ok () ->
      exists released, Moved before later [freed] released := by
  unfold quarantinePush
  rw [allows_bind, allows_self]
  split
  · rename_i full
    rw [allows_bind]
    refine (allows_releaseOldest traced).mono fun verdict middle moved => ?_
    cases verdict with
    | error report => exact (allows_pure _ _ _).mpr fun impossible => nomatch impossible
    | ok _ =>
        have first := moved rfl
        have room : middle.ctx.quarantineLen < quarantineCap := by
          have lengths := congrArg List.length first.queue
          rw [List.append_nil, List.length_append, List.length_singleton, DebugProgram.waiting_length,
            DebugProgram.waiting_length] at lengths
          omega
        rw [allows_bind]
        refine (allows_pushNewest room freed).mono fun _ later second => ?_
        exact (allows_pure _ _ _).mpr fun _ => ⟨_, first.trans second⟩
  · rename_i notFull
    rw [allows_bind]
    refine (allows_pushNewest (Nat.lt_of_le_of_ne ring notFull) freed).mono fun _ later moved => ?_
    exact (allows_pure _ _ _).mpr fun _ => ⟨[], moved⟩

/-- What is given back is pushed. -/
theorem allows_dealloc (ring : before.ctx.quarantineLen ≤ quarantineCap) :
    Allows (Debug.dealloc ptr layout) before fun verdict later => verdict = .ok () ->
      exists serial released, Moved before later [⟨ptr, layout, serial⟩] released := by
  unfold Debug.dealloc
  rw [allows_bind, allows_self, allows_bind, allows_assertDebug traced, allows_bind]
  refine (allows_checkedEntry true _).mono fun verdict middle tabled => ?_
  rcases tabled with ⟨table, rfl⟩
  cases verdict with
  | error report =>
      refine (allows_pure _ _ _).mpr fun impossible => ?_
      cases impossible
  | ok entry =>
      rw [allows_bind, Run.allows_get]
      split
      · rw [allows_bind, allows_self, allows_bind, allows_setSelf, allows_bind]
        refine allows_demand fun withGuard _ => ?_
        rw [allows_bind, setBytes, allows_modify]
        refine (allows_quarantinePush (show Debug.parent _ = some al.traced from ?_) ?_ _).mono fun verdict later pushed done => ?_
        · exact traced
        · exact ring
        · rcases pushed done with ⟨released, moved⟩
          exact ⟨entry.serial, released, moved.parent, moved.queue, moved.calls⟩
      · refine (allows_pure _ _ _).mpr fun impossible => ?_
        cases impossible

/-- All that waits goes back, in order. -/
theorem allows_flushQuarantine : Allows flushQuarantine before fun verdict later =>
    verdict = .ok () -> Moved before later [] before.ctx.waiting ∧ later.ctx.waiting = [] := by
  unfold flushQuarantine
  rw [allows_bind, allows_self, allows_bind, allows_assertDebug traced]
  refine allows_loop (fun _ middle => exists released, Moved before middle [] released) ?_
    ⟨[], Moved.nothing rfl rfl rfl⟩
  rintro ⟨⟩ middle ⟨released, moved⟩
  rw [allows_bind, allows_self]
  split
  · rw [allows_bind]
    refine (allows_releaseOldest (moved.parent.trans traced)).mono fun verdict later next => ?_
    cases verdict with
    | error report => exact (allows_pure _ _ _).mpr fun impossible => nomatch impossible
    | ok _ => exact (allows_pure _ _ _).mpr ⟨_, moved.trans (next rfl)⟩
  · rename_i drained
    refine (allows_pure _ _ _).mpr fun _ => ?_
    have empty : middle.ctx.waiting = [] := by
      rw [← List.length_eq_zero_iff, DebugProgram.waiting_length]
      omega
    have all := moved.queue
    rw [List.append_nil, empty, List.append_nil] at all
    exact ⟨all ▸ moved, empty⟩

/-- An allocator that is given up has nothing left. -/
theorem allows_deinit : Allows deinit before fun verdict later =>
    verdict = .ok () -> later.ctx = inert ∧ calls later = calls before ++ before.ctx.waiting.map returning := by
  unfold deinit
  rw [allows_bind, allows_self]
  split
  · rename_i given
    rw [traced] at given
    cases given
  · rw [allows_bind]
    refine (allows_flushQuarantine traced).mono fun verdict middle flushed => ?_
    cases verdict with
    | error report => exact (allows_pure _ _ _).mpr fun impossible => nomatch impossible
    | ok _ =>
        rw [allows_bind, allows_setSelf]
        exact (allows_pure _ _ _).mpr fun _ => ⟨rfl, (flushed rfl).1.calls⟩

/-- What a request gives back to the parent is what it got from it. -/
theorem allows_alloc : Allows (Debug.alloc layout) before fun verdict later =>
    forall answer, verdict = .ok answer -> later.ctx.parent = before.ctx.parent ∧
      later.ctx.waiting = before.ctx.waiting ∧ exists more, calls later = calls before ++ more ∧
        forall block, block ∈ HookCall.givenBack more -> HookCall.alloc block.2 (some block.1) ∈ more := by
  have none_ : forall block, block ∈ HookCall.givenBack [] -> HookCall.alloc block.2 (some block.1) ∈ [] :=
    fun block impossible => absurd impossible List.not_mem_nil
  unfold Debug.alloc
  rw [allows_bind, allows_self, allows_bind, allows_assertDebug traced, allows_bind, allows_require]
  intro _
  rw [allows_bind, nextSerial, allows_bind, allows_self, allows_bind, allows_setSelf]
  split
  · rw [allows_pure, allows_pure]
    intro _ impossible
    cases impossible
  · split
    all_goals rw [allows_pure]; dsimp only
    · rw [if_pos rfl, allows_pure]
      exact fun _ _ => ⟨rfl, rfl, [], (List.append_nil _).symm, none_⟩
    · split
      · rw [allows_pure]
        exact fun _ _ => ⟨rfl, rfl, [], (List.append_nil _).symm, none_⟩
      · split
        · rw [allows_pure]
          exact fun _ _ => ⟨rfl, rfl, [], (List.append_nil _).symm, none_⟩
        · rename_i withGuard _
          rw [allows_bind, allows_onParent]
          refine allows_allocate ?_ fun answer state => ?_
          · exact (allows_pure _ _ _).mpr fun _ _ => ⟨rfl, rfl, [], (List.append_nil _).symm, none_⟩
          · cases answer with
            | none =>
                refine (allows_pure _ _ _).mpr fun _ _ => ⟨rfl, rfl, [.alloc withGuard none], rfl, ?_⟩
                exact fun block impossible => absurd impossible List.not_mem_nil
            | some block =>
                refine (allows_record block layout withGuard _).mono fun verdict later recorded answer ok => ?_
                rcases recorded answer ok with ⟨parent, waiting, same | back⟩
                · refine ⟨parent, waiting, [.alloc withGuard (some block)], same, ?_⟩
                  exact fun block impossible => absurd impossible List.not_mem_nil
                · refine ⟨parent, waiting, [.alloc withGuard (some block), .dealloc block withGuard], ?_, ?_⟩
                  · rw [back]
                    exact List.append_assoc _ _ _
                  · intro other inside
                    cases List.mem_singleton.mp inside
                    exact List.mem_cons_self

/-! ## What the wrappers push and release -/

omit traced [HasBytes P] in
theorem allows_orAbort {run : Run (Worlds (Traced P)) (Verdict α)} {post : α -> Worlds (Traced P) -> Prop}
    (allows : Allows run before fun verdict later => forall a, verdict = .ok a -> post a later) :
    Allows (orAbort run) before post := by
  unfold orAbort
  rw [allows_bind]
  refine allows.mono fun verdict later after => ?_
  cases verdict with
  | ok a => exact (allows_pure _ _ _).mpr (after a rfl)
  | error report => exact fun a t impossible => nomatch impossible

theorem allows_allocate_moved : Allows (allocate (toAl (Traced P)) layout) before fun _ later =>
    later.ctx.parent = before.ctx.parent ∧ later.ctx.waiting = before.ctx.waiting := by
  unfold allocate
  rw [allows_bind, allows_require]
  intro _
  split
  · exact (allows_pure _ _ _).mpr ⟨rfl, rfl⟩
  · rw [allows_bind]
    refine allows_orAbort ((allows_alloc traced).mono fun verdict later kept answer ok => ?_)
    rw [allows_bind, allows_require, allows_pure]
    rcases kept answer ok with ⟨parent, waiting, _⟩
    exact fun _ => ⟨parent, waiting⟩

theorem allows_deallocate_moved (ring : before.ctx.quarantineLen ≤ quarantineCap) :
    Allows (deallocate (toAl (Traced P)) (some ptr) layout) before fun _ later =>
      exists serial released, Moved before later [⟨ptr, layout, serial⟩] released := by
  unfold deallocate
  rw [allows_bind, allows_require]
  intro _
  rw [allows_bind, allows_require]
  intro _
  exact allows_orAbort ((allows_dealloc traced ring).mono fun verdict later moved _ ok => moved ok)

end Functions

/-- Without a parent there is no hook to call. -/
theorem allows_inert {run : Debug (Traced P) -> AlVtable (Traced P) -> Run (Worlds (Traced P)) α}
    (given : world.ctx = inert) {post : α -> Worlds (Traced P) -> Prop} :
    Allows (do
      let self ← World.self
      let parent ← assertDebug self
      run self parent) world post := by
  rw [allows_bind, allows_self, allows_bind, given]
  exact fun _ _ impossible => nomatch impossible

end Debug
end TerseDsa
