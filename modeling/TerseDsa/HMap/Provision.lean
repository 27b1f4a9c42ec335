import TerseDsa.HMap.Ownership

namespace TerseDsa

open Foundation Run Objects HMapObjects

/-!
# Copies and room

Constructors, assignments and what only changes the room of a map or a set: each
does all of it or nothing.  `HMap.Ownership` says of these calls what may have
changed; here their statuses are kept, and an error says that nothing has.
-/

variable {K V C : Type} {s later : HMapObjects K V} {st : Status}

/-- Run what works on one object, and keep its status. -/
def HMapObjects.tend (self : Nat) (task : HMap K -> Run (HMapMem K V) (Status × HMap K)) :
    Run (HMapObjects K V) Status := do
  let (st, after) ← within (task (← load self))
  store self after
  return st

/-- The calls that build an object, assign a copy, or change the room. -/
inductive Provision (K V : Type) where
  | make (out : Nat) (maker : Maker K V)
  | copyAssign (self other : Nat)
  | setCopyAssign (self other : Nat)
  | reserve (self newCap : Nat)
  | shrinkToFit (self : Nat)
  | setReserve (self newCap : Nat)
  | setShrinkToFit (self : Nat)

namespace Provision

/-- Make the call. -/
def run : Provision K V -> Run (HMapObjects K V) Status
  | make out maker => do fill out (← maker.make)
  | copyAssign self other => HMapObjects.copyAssign self other
  | setCopyAssign self other => HMapObjects.setCopyAssign self other
  | reserve self newCap => tend self fun map => HMap.reserve map newCap
  | shrinkToFit self => tend self HMap.shrinkToFit
  | setReserve self newCap => tend self fun set => HSet.reserve set newCap
  | setShrinkToFit self => tend self HSet.shrinkToFit

/-- The same as a call of a program, where statuses are dropped. -/
def call : Provision K V -> Call K V C
  | make out maker => .make out maker
  | copyAssign self other => .copyAssign self other
  | setCopyAssign self other => .setCopyAssign self other
  | reserve self newCap => .map self (.reserve newCap)
  | shrinkToFit self => .map self .shrinkToFit
  | setReserve self newCap => .set self (.reserve newCap)
  | setShrinkToFit self => .set self .shrinkToFit

theorem ends_call (task : Provision K V) {post : HMapObjects K V -> Prop} :
    Ends (task.call : Call K V C).run s (fun _ later => post later) <-> Ends task.run s fun _ later => post later := by
  cases task <;>
    simp only [call, run, Call.run, tend, MapOp.run, SetOp.run, ends_bind, ends_load, ends_within, ends_store,
      ends_pure]

/-- It leads to a state that a program comes to. -/
theorem reaches (reachable : Reachable C s) (task : Provision K V) (allowed : (task.call : Call K V C).Allowed s)
    (ran : task.run s = some (st, later)) : Reachable C later := by
  have ends : Ends (task.call : Call K V C).run s fun _ last => last = later :=
    task.ends_call.mpr ⟨st, later, ran, rfl⟩
  rcases ends with ⟨_, _, called, rfl⟩
  exact reachable.call task.call allowed called

end Provision

/-- What became of an object: it is well formed and of its value layout, and where the task failed nothing has
changed. -/
structure Provided (blocks : Blocks AlTag (HMapCell K V)) (map : HMap K) (result : Status × HMap K)
    (later : HMapMem K V) : Prop where
  shape : exists table : HMapTable K V, HMap.Shape result.2 table
  val : result.2.val = map.val
  refused : result.1 ≠ .ok -> result.2 = map ∧ later.blocks = blocks

namespace HMap

variable {heap : HMapMem K V} {self : HMap K} {table : HMapTable K V}

theorem ends_reserve_provided (rep : Rep heap.blocks self table) (shape : Shape self table) (newCap : Nat) :
    Ends (reserve self newCap) heap (Provided heap.blocks self) := by
  apply ends_reserve rep shape
  · exact fun later same => ⟨⟨table, shape⟩, rfl, fun _ => ⟨rfl, same⟩⟩
  · exact fun after changed later steps _ _ =>
      ⟨⟨changed, steps.shape⟩, (congrArg HMap.val steps.kind :), fun failed => absurd rfl failed⟩

theorem ends_shrinkToFit_provided (rep : Rep heap.blocks self table) (shape : Shape self table) :
    Ends (shrinkToFit self) heap (Provided heap.blocks self) := by
  apply ends_shrinkToFit rep shape
  exact fun st after changed later steps _ refused => ⟨⟨changed, steps.shape⟩, (congrArg HMap.val steps.kind :), refused⟩

end HMap

namespace HSet

variable {heap : HMapMem K V} {self : HSet K} {table : HMapTable K V}

/-- A set is checked before and after what is done to the map. -/
theorem ends_checked (shape : HMap.Shape self table) (noVal : self.val.size = 0)
    (task : HMap K -> Run (HMapMem K V) (Status × HMap K))
    (ends : Ends (task self) heap (Provided heap.blocks self)) :
    Ends (do
      assertHSet self
      let (st, self) ← task self
      assertHSet self
      return (st, self)) heap (Provided heap.blocks self) := by
  simp only [ends_bind, ends_assertHSet shape noVal]
  apply ends.mono
  rintro ⟨st, after⟩ later provided
  rcases provided.shape with ⟨changed, still⟩
  have bare : after.val.size = 0 := by
    have same : after.val = self.val := provided.val
    rwa [same]
  rw [ends_assertHSet still bare, ends_pure]
  exact provided

end HSet

namespace HMap

variable {tables : Nat -> HMapTable K V} {self : Nat}

/-- What is done to an object is done to its variable. -/
theorem ends_tend {task : HMap K -> Run (HMapMem K V) (Status × HMap K)}
    (ends : Ends (task (s.objs self)) s.mem (Provided s.mem.blocks (s.objs self))) :
    Ends (tend self task) s fun st later => st ≠ .ok -> later.objs = s.objs ∧ later.mem.blocks = s.mem.blocks := by
  simp only [tend, ends_bind, ends_load, ends_within]
  apply ends.mono
  rintro ⟨st, after⟩ mem provided
  simp only [ends_store, ends_pure]
  intro failed
  rcases provided.refused failed with ⟨same, sameBlocks⟩
  have still : after = s.objs self := same
  exact ⟨by rw [still, Function.update_eq_self], sameBlocks⟩

/-- A call that fails leaves the objects and the live blocks as they were. -/
theorem Invariant.provided (invariant : Invariant s tables) (task : Provision K V)
    (allowed : (task.call : Call K V C).Allowed s) :
    Ends task.run s fun st later => st ≠ .ok -> later.objs = s.objs ∧ later.mem.blocks = s.mem.blocks := by
  cases task with
  | make out maker =>
      simp only [Provision.run, ends_bind]
      apply (invariant.made maker allowed.2).mono
      rintro result mid ⟨sameMaps, built⟩
      exact (invariant.filled allowed.1 sameMaps built).mono fun _ _ => And.right
  | copyAssign self other =>
      exact (invariant.copyAssigned allowed.1 allowed.2.1 allowed.2.2).mono fun _ _ now => now.2.2.2
  | setCopyAssign self other =>
      exact (invariant.setCopyAssigned allowed.1 allowed.2.1 allowed.2.2).mono fun _ _ => And.right
  | reserve self newCap =>
      have held := invariant.heldBy self
      exact ends_tend (ends_reserve_provided held.rep (held.shape allowed.1) newCap)
  | shrinkToFit self =>
      have held := invariant.heldBy self
      exact ends_tend (ends_shrinkToFit_provided held.rep (held.shape allowed.1))
  | setReserve self newCap =>
      have held := invariant.heldBy self
      have shape := held.shape allowed.1
      apply ends_tend
      exact HSet.ends_checked shape allowed.2.1 (fun map => reserve map newCap)
        (ends_reserve_provided held.rep shape newCap)
  | setShrinkToFit self =>
      have held := invariant.heldBy self
      have shape := held.shape allowed.1
      apply ends_tend
      exact HSet.ends_checked shape allowed.2.1 shrinkToFit (ends_shrinkToFit_provided held.rep shape)

end HMap
end TerseDsa
