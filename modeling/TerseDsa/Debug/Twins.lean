import TerseDsa.Debug.Model
import TerseDsa.Alloc.Calls

namespace TerseDsa

open Foundation Run AlVtable

/-!
# A debug allocator over a parent whose calls are written down

Whether the calls of the parent's hooks are written down or not, the debug
allocator does the same.  So what is known of the one is known of the other.
-/

namespace BlockTable

variable {S T : Type} {rel : S -> T -> Prop} (table : BlockTable)

theorem slot_matches (i : Nat) : Run.Matches rel Eq (table.slot i) (table.slot i) := Run.Matches.of_demand _

theorem setSlot_matches (i : Nat) (record : BlockRecord) :
    Run.Matches rel Eq (table.setSlot i record) (table.setSlot i record) :=
  (Run.Matches.of_require _).bind_eq fun _ => Run.Matches.of_pure rfl

theorem probe_matches (addr : Nat) : Run.Matches rel Eq (table.probe addr) (table.probe addr) := by
  refine (Run.Matches.of_require _).bind_eq fun _ => ?_
  refine Run.Matches.loop ?_ _ (Eq.refl (table.home addr))
  rintro i _ rfl
  refine (table.slot_matches i).bind_eq fun record => ?_
  exact Run.Matches.ite (Run.Matches.of_pure rfl) (Run.Matches.of_pure rfl)

theorem find_matches (addr : Nat) : Run.Matches rel Eq (table.find addr) (table.find addr) := by
  refine Run.Matches.ite (Run.Matches.of_pure rfl) ?_
  refine (table.probe_matches addr).bind_eq fun i => (table.slot_matches i).bind_eq fun record => ?_
  exact Run.Matches.ite (Run.Matches.of_pure rfl) (Run.Matches.of_pure rfl)

theorem closeHole_matches (hash : Nat -> Nat) (hole : Nat) :
    Run.Matches rel Eq (table.closeHoleBy hash hole) (table.closeHoleBy hash hole) := by
  unfold closeHoleBy
  refine Run.Matches.loop ?_ _ (Eq.refl (table, hole, _))
  rintro ⟨table, hole, i⟩ _ rfl
  refine (table.slot_matches i).bind_eq fun record => ?_
  refine Run.Matches.ite ?_ (Run.Matches.of_pure rfl)
  refine Run.Matches.ite ?_ (Run.Matches.of_pure rfl)
  refine (table.setSlot_matches hole record).bind_eq fun moved => ?_
  exact (moved.setSlot_matches i .empty).bind_eq fun _ => Run.Matches.of_pure rfl

theorem take_matches (addr : Nat) : Run.Matches rel Eq (table.take addr) (table.take addr) := by
  refine Run.Matches.ite (Run.Matches.of_pure rfl) ?_
  refine (table.probe_matches addr).bind_eq fun hole => (table.slot_matches hole).bind_eq fun record => ?_
  refine Run.Matches.ite (Run.Matches.of_pure rfl) ?_
  refine (table.setSlot_matches hole .empty).bind_eq fun emptied => ?_
  exact (BlockTable.closeHole_matches _ _ hole).bind_eq fun _ => Run.Matches.of_pure rfl

end BlockTable

namespace Debug

variable {P α β : Type} {al : AlVtable P}

theorem allows_onParent {world : Worlds P} {run : Run P α} {post : α -> Worlds P -> Prop} :
    Allows (onParent run) world post <-> Allows run world.below.below fun a below =>
      post a { world with below := { world.below with below := below } } := by
  unfold onParent World.under
  rw [allows_zoom, allows_zoom]

theorem allows_onDefault {world : Worlds P} {run : Run DefaultAl α} {post : α -> Worlds P -> Prop} :
    Allows (onDefault run) world post <-> Allows run world.below.default fun a default =>
      post a { world with below := { world.below with default := default } } := by
  unfold onDefault World.under
  rw [allows_zoom, allows_zoom]

/-- The allocator as it is over the parent itself. -/
def shown (al : AlVtable P) (self : Debug (Traced P)) : Debug P where
  parent := self.parent.map fun _ => al
  table := self.table
  quarantine := self.quarantine
  quarantineHead := self.quarantineHead
  quarantineLen := self.quarantineLen
  liveBytes := self.liveBytes
  peakBytes := self.peakBytes
  requests := self.requests
  failAfter := self.failAfter
  breakAt := self.breakAt

/-- The one is over the parent whose calls are written down, the other over the parent. -/
def Twin (al : AlVtable P) (self : Debug (Traced P)) (other : Debug P) : Prop :=
  (forall parent, self.parent = some parent -> parent = al.traced) ∧ other = shown al self

/-- What they are built on. -/
def Shows (world : Beside (Traced P)) (other : Beside P) : Prop :=
  world.below.state = other.below ∧ world.default = other.default

/-- All that the two work on. -/
structure Over (al : AlVtable P) (world : Worlds (Traced P)) (other : Worlds P) : Prop where
  ctx : Twin al world.ctx other.ctx
  below : world.below.below.state = other.below.below
  default : world.below.default = other.below.default

theorem self_matches : Run.Matches (Over al) (Twin al) World.self World.self :=
  fun _ _ onto => ⟨onto.ctx, onto⟩

theorem setSelf_matches {self : Debug (Traced P)} {other : Debug P} (twin : Twin al self other) :
    Run.Matches (Over al) Eq (World.setSelf self) (World.setSelf other) :=
  Run.Matches.of_modify fun _ _ onto => ⟨twin, onto.below, onto.default⟩

theorem assertDebug_matches {self : Debug (Traced P)} {other : Debug P} (twin : Twin al self other) :
    Run.Matches (Over al) (fun parent parent' => parent = al.traced ∧ parent' = al) (assertDebug self)
      (assertDebug other) := by
  rcases twin with ⟨traced, rfl⟩
  cases there : self.parent with
  | none =>
      simp only [assertDebug, shown, there, Option.map_none]
      exact Run.Matches.of_failure
  | some parent =>
      simp only [assertDebug, shown, there, Option.map_some]
      exact Run.Matches.of_pure ⟨traced parent there, rfl⟩

theorem onParent_matches {run : Run (Traced P) α} {run' : Run P α} (runs : Run.Matches Traced.Shows Eq run run') :
    Run.Matches (Over al) Eq (onParent run) (onParent run') := by
  unfold onParent World.under
  have beside : Run.Matches (Shows (P := P)) Eq
      (zoom Beside.below (fun below beside => { beside with below := below }) run)
      (zoom Beside.below (fun below beside => { beside with below := below }) run') :=
    Run.Matches.zoom runs (fun _ _ both => both.1) fun _ _ _ _ shows both => ⟨shows, both.2⟩
  refine Run.Matches.zoom beside ?_ ?_
  · exact fun _ _ onto => ⟨onto.below, onto.default⟩
  · exact fun _ _ _ _ inner onto => ⟨onto.ctx, inner.1, inner.2⟩

theorem onDefault_matches (run : Run DefaultAl α) :
    Run.Matches (Over al) Eq (onDefault run) (onDefault run) := by
  unfold onDefault World.under
  have beside : Run.Matches (Shows (P := P)) Eq
      (zoom Beside.default (fun default beside => { beside with default := default }) run)
      (zoom Beside.default (fun default beside => { beside with default := default }) run) :=
    Run.Matches.zoom (Run.Matches.refl run) (fun _ _ both => both.2) fun _ _ _ _ equal both => ⟨both.1, equal⟩
  refine Run.Matches.zoom beside ?_ ?_
  · exact fun _ _ onto => ⟨onto.below, onto.default⟩
  · exact fun _ _ _ _ inner onto => ⟨onto.ctx, inner.1, inner.2⟩

theorem pushNewest_matches (freed : FreedBlock) :
    Run.Matches (Over al) Eq (pushNewest freed) (pushNewest freed) := by
  refine self_matches.bind fun self _ twin => ?_
  rcases twin with ⟨traced, rfl⟩
  exact setSelf_matches ⟨traced, rfl⟩

theorem nextSerial_matches : Run.Matches (Over al) Eq nextSerial nextSerial := by
  refine self_matches.bind fun self _ twin => ?_
  rcases twin with ⟨traced, rfl⟩
  refine Run.Matches.bind_eq (setSelf_matches ?_) fun _ => ?_
  · exact ⟨traced, rfl⟩
  refine Run.Matches.ite (Run.Matches.of_pure rfl) ?_
  exact Run.Matches.ite (Run.Matches.of_pure rfl) (Run.Matches.of_pure rfl)

theorem checkedEntry_matches (ptr : Nat) (layout : Layout) (take : Bool) (as_ : String) :
    Run.Matches (Over al) Eq (checkedEntry ptr layout take as_) (checkedEntry ptr layout take as_) := by
  refine self_matches.bind fun self _ twin => ?_
  rcases twin with ⟨traced, rfl⟩
  have same : (shown al self).quarantineFind ptr = self.quarantineFind ptr := rfl
  dsimp only
  refine Run.Matches.ite ((self.table.take_matches ptr).bind_eq fun pair => ?_)
    ((self.table.find_matches ptr).bind_eq fun found => ?_)
  on_goal 1 => rcases pair with ⟨found, table⟩
  on_goal 2 => rw [pure_bind, pure_bind]
  all_goals
    refine Run.Matches.bind_eq (setSelf_matches ?_) fun _ => ?_
    · exact ⟨traced, rfl⟩
    cases found with
    | none =>
        dsimp only
        rw [same]
        cases self.quarantineFind ptr with
        | some freed => exact Run.Matches.of_pure rfl
        | none => exact Run.Matches.of_pure rfl
    | some entry => exact Run.Matches.ite (Run.Matches.of_pure rfl) (Run.Matches.of_pure rfl)

theorem orAbort_matches {run : Run (Worlds (Traced P)) (Verdict α)} {run' : Run (Worlds P) (Verdict α)}
    (runs : Run.Matches (Over al) Eq run run') : Run.Matches (Over al) Eq (orAbort run) (orAbort run') := by
  refine runs.bind_eq fun verdict => ?_
  cases verdict with
  | ok result => exact Run.Matches.of_pure rfl
  | error report => exact Run.Matches.of_failure

section Memory

variable [HasBytes P]

theorem bytes_eq {world : Worlds (Traced P)} {other : Worlds P} (onto : Over al world other) :
    HasBytes.bytes world = HasBytes.bytes other :=
  congrArg HasBytes.bytes onto.below

theorem setBytes_matches (addr count : Nat) (byte : Byte) :
    Run.Matches (Over al) Eq (setBytes addr count byte) (setBytes addr count byte) := by
  refine Run.Matches.of_modify fun world other onto => ⟨onto.ctx, ?_, onto.default⟩
  change HasBytes.withBytes _ world.below.below.state = HasBytes.withBytes _ other.below.below
  rw [bytes_eq onto, onto.below]

theorem releaseOldest_matches : Run.Matches (Over al) Eq releaseOldest releaseOldest := by
  refine self_matches.bind fun self _ twin => ?_
  refine (assertDebug_matches twin).bind fun parent parent' parents => ?_
  rcases twin with ⟨traced, rfl⟩
  rcases parents with ⟨rfl, rfl⟩
  refine (Run.Matches.of_require _).bind_eq fun _ => ?_
  refine Run.Matches.bind_eq (setSelf_matches ?_) fun _ => ?_
  · exact ⟨traced, rfl⟩
  refine (Run.Matches.of_demand _).bind_eq fun withGuard => ?_
  refine Run.Matches.of_get.bind fun world other onto => ?_
  rw [bytes_eq onto]
  refine Run.Matches.ite ?_ (Run.Matches.of_pure rfl)
  exact (onParent_matches ((traced_matches _).deallocate _ _)).bind_eq fun _ => Run.Matches.of_pure rfl

theorem quarantinePush_matches (freed : FreedBlock) :
    Run.Matches (Over al) Eq (quarantinePush freed) (quarantinePush freed) := by
  refine self_matches.bind fun self _ twin => ?_
  rcases twin with ⟨traced, rfl⟩
  refine Run.Matches.ite ?_ ?_
  · refine releaseOldest_matches.bind_eq fun verdict => ?_
    cases verdict with
    | error report => exact Run.Matches.of_pure rfl
    | ok _ => exact (pushNewest_matches freed).bind_eq fun _ => Run.Matches.of_pure rfl
  · exact (pushNewest_matches freed).bind_eq fun _ => Run.Matches.of_pure rfl

theorem record_matches (block : Nat) (layout withGuard : Layout) (serial : Nat) :
    Run.Matches (Over al) Eq (record al.traced block layout withGuard serial)
      (record al block layout withGuard serial) := by
  refine self_matches.bind fun self _ twin => ?_
  rcases twin with ⟨traced, rfl⟩
  refine (self.table.find_matches block).bind_eq fun found => ?_
  cases found with
  | some live => exact Run.Matches.of_pure rfl
  | none =>
      have same : (shown al self).quarantineFind block = self.quarantineFind block := rfl
      dsimp only
      rw [same]
      cases self.quarantineFind block with
      | some freed => exact Run.Matches.of_pure rfl
      | none =>
          refine (onDefault_matches _).bind_eq fun pair => ?_
          rcases pair with ⟨inserted, table⟩
          refine Run.Matches.bind_eq (setSelf_matches ?_) fun _ => ?_
          · exact ⟨traced, rfl⟩
          refine Run.Matches.ite ?_ ?_
          · refine (setBytes_matches _ _ _).bind_eq fun _ => (setBytes_matches _ _ _).bind_eq fun _ => ?_
            refine Run.Matches.bind_eq (setSelf_matches ?_) fun _ => Run.Matches.of_pure rfl
            exact ⟨traced, rfl⟩
          · exact (onParent_matches ((traced_matches _).deallocate _ _)).bind_eq fun _ => Run.Matches.of_pure rfl

theorem alloc_matches (layout : Layout) : Run.Matches (Over al) Eq (Debug.alloc layout) (Debug.alloc layout) := by
  refine self_matches.bind fun self _ twin => ?_
  refine (assertDebug_matches twin).bind fun parent parent' parents => ?_
  rcases parents with ⟨rfl, rfl⟩
  refine (Run.Matches.of_require _).bind_eq fun _ => nextSerial_matches.bind_eq fun verdict => ?_
  cases verdict with
  | error report => exact Run.Matches.of_pure rfl
  | ok serial =>
      refine Run.Matches.ite (Run.Matches.of_pure rfl) ?_
      cases ckdParentLayout layout with
      | none => exact Run.Matches.of_pure rfl
      | some withGuard =>
          refine (onParent_matches ((traced_matches _).allocate _)).bind_eq fun answer => ?_
          cases answer with
          | none => exact Run.Matches.of_pure rfl
          | some block => exact record_matches block layout withGuard serial

theorem dealloc_matches (ptr : Addr) (layout : Layout) :
    Run.Matches (Over al) Eq (Debug.dealloc ptr layout) (Debug.dealloc ptr layout) := by
  refine self_matches.bind fun self _ twin => ?_
  refine (assertDebug_matches twin).bind fun _ _ _ => ?_
  refine (checkedEntry_matches ptr layout true _).bind_eq fun verdict => ?_
  cases verdict with
  | error report => exact Run.Matches.of_pure rfl
  | ok entry =>
      refine Run.Matches.of_get.bind fun world other onto => ?_
      rw [bytes_eq onto]
      refine Run.Matches.ite ?_ (Run.Matches.of_pure rfl)
      refine self_matches.bind fun self _ twin => ?_
      rcases twin with ⟨traced, rfl⟩
      refine Run.Matches.bind_eq (setSelf_matches ?_) fun _ => ?_
      · exact ⟨traced, rfl⟩
      refine (Run.Matches.of_demand _).bind_eq fun withGuard => ?_
      exact (setBytes_matches _ _ _).bind_eq fun _ => quarantinePush_matches _

theorem flushQuarantine_matches : Run.Matches (Over al) Eq flushQuarantine flushQuarantine := by
  refine self_matches.bind fun self _ twin => ?_
  refine (assertDebug_matches twin).bind fun _ _ _ => ?_
  rcases twin with ⟨traced, rfl⟩
  refine Run.Matches.loop ?_ _ (Eq.refl ())
  rintro ⟨⟩ _ rfl
  refine self_matches.bind fun self _ twin => ?_
  rcases twin with ⟨traced, rfl⟩
  refine Run.Matches.ite ?_ (Run.Matches.of_pure rfl)
  refine releaseOldest_matches.bind_eq fun verdict => ?_
  cases verdict with
  | error report => exact Run.Matches.of_pure rfl
  | ok _ => exact Run.Matches.of_pure rfl

theorem deinit_matches : Run.Matches (Over al) Eq deinit deinit := by
  refine self_matches.bind fun self _ twin => ?_
  rcases twin with ⟨traced, rfl⟩
  cases there : self.parent with
  | none =>
      simp only [shown, there, Option.map_none]
      exact Run.Matches.of_pure rfl
  | some parent =>
      simp only [shown, there, Option.map_some]
      refine flushQuarantine_matches.bind_eq fun verdict => ?_
      cases verdict with
      | error report => exact Run.Matches.of_pure rfl
      | ok _ =>
          refine Run.Matches.bind_eq (setSelf_matches ?_) fun _ => Run.Matches.of_pure rfl
          exact ⟨fun _ impossible => (nomatch impossible), rfl⟩

/-- The wrappers over the two do the same, as far as they use the two required hooks. -/
theorem allocate_matches (layout : Layout) :
    Run.Matches (Over al) Eq (allocate (toAl (Traced P)) layout) (allocate (toAl P) layout) := by
  refine (Run.Matches.of_require _).bind_eq fun _ => Run.Matches.ite (Run.Matches.of_pure rfl) ?_
  refine (orAbort_matches (alloc_matches layout)).bind_eq fun ptr => ?_
  exact (Run.Matches.of_require _).bind_eq fun _ => Run.Matches.of_pure rfl

theorem deallocate_matches (ptr : Option Addr) (layout : Layout) :
    Run.Matches (Over al) Eq (deallocate (toAl (Traced P)) ptr layout) (deallocate (toAl P) ptr layout) := by
  refine (Run.Matches.of_require _).bind_eq fun _ => (Run.Matches.of_require _).bind_eq fun _ => ?_
  cases ptr with
  | none => exact Run.Matches.of_pure rfl
  | some addr => exact orAbort_matches (dealloc_matches addr layout)

end Memory
end Debug
end TerseDsa
