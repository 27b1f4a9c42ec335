import TerseDsa.Foundation.Sharing

namespace TerseDsa
namespace Foundation

open Run
open Function (update update_self update_of_ne update_eq_self)

/-!
# Families of objects over one memory

Several kinds of objects share one memory, whose cells need not be of one type.
Code for one type of cells sees a block of another as one without cells, whose
address is taken.  `Mixed.Invariant` says that every object of every family is
held and that the live blocks are divided among all of them; what is known of
one kind of objects among others carries over to it, and a block may be handed
from an object of one family to one of another.
-/

/-- Cells of one type among those of another. -/
structure CellSort (Cell Sub : Type) where
  pick : Cell -> Option Sub
  put : Sub -> Cell
  idle : Sub
  pick_put : forall sub, pick (put sub) = some sub
  put_pick : forall {cell sub}, pick cell = some sub -> put sub = cell

namespace CellSort

variable {Tag Cell Sub : Type} (sort : CellSort Cell Sub) {heap : Heap Tag Cell} {later : Heap Tag Sub} {addr : Addr}

/-- The memory as code for one type of cells sees it. -/
def view (heap : Heap Tag Cell) : Heap Tag Sub where
  blocks addr := (heap.blocks addr).map fun block => ⟨block.tag, (sort.pick block.cell).getD sort.idle⟩
  answers := heap.answers
  asked := heap.asked

/-- A live block of other cells stays what it is. -/
def restore (later : Heap Tag Sub) (heap : Heap Tag Cell) : Heap Tag Cell where
  blocks addr := (later.blocks addr).map fun block =>
    match heap.blocks addr with
    | none => ⟨block.tag, sort.put block.cell⟩
    | some old => if (sort.pick old.cell).isNone then old else ⟨block.tag, sort.put block.cell⟩
  answers := later.answers
  asked := later.asked

/-- A block of other cells. -/
def Foreign (blocks : Blocks Tag Cell) (addr : Addr) : Prop :=
  exists block, blocks addr = some block ∧ sort.pick block.cell = none

theorem view_eq_none : (sort.view heap).blocks addr = none <-> heap.blocks addr = none := Option.map_eq_none_iff

theorem view_congr {other : Heap Tag Cell} (same : other.blocks addr = heap.blocks addr) :
    (sort.view other).blocks addr = (sort.view heap).blocks addr := by
  simp only [view, same]

theorem restore_eq_none : (sort.restore later heap).blocks addr = none <-> later.blocks addr = none :=
  Option.map_eq_none_iff

/-- What looks the same is the same. -/
theorem restore_same (same : later.blocks addr = (sort.view heap).blocks addr) :
    (sort.restore later heap).blocks addr = heap.blocks addr := by
  cases here : heap.blocks addr with
  | none =>
      rw [restore_eq_none, same, view_eq_none]
      exact here
  | some block =>
      simp only [restore, same, view, here, Option.map_some]
      cases picked : sort.pick block.cell with
      | none => simp only [Option.isNone_none, if_true]
      | some sub => simp only [Option.isNone_some, Bool.false_eq_true, if_false, Option.getD_some, sort.put_pick picked]

/-- A block that was of other cells is still seen as it was. -/
theorem view_restore (kept : sort.Foreign heap.blocks addr -> later.blocks addr = (sort.view heap).blocks addr) :
    (sort.view (sort.restore later heap)).blocks addr = later.blocks addr := by
  by_cases foreign : sort.Foreign heap.blocks addr
  · rw [kept foreign]
    exact sort.view_congr (sort.restore_same (kept foreign))
  · cases there : later.blocks addr with
    | none =>
        rw [view_eq_none, restore_eq_none]
        exact there
    | some block =>
        cases here : heap.blocks addr with
        | none => simp only [view, restore, there, here, Option.map_some, sort.pick_put, Option.getD_some]
        | some old =>
            have mine : (sort.pick old.cell).isNone = false := by
              cases picked : sort.pick old.cell with
              | none => exact absurd ⟨old, here, picked⟩ foreign
              | some sub => rfl
            simp only [view, restore, there, here, Option.map_some, mine, Bool.false_eq_true, if_false, sort.pick_put,
              Option.getD_some]

/-- A block that is new, or was of these cells, is of these cells. -/
theorem not_foreign_restore (native : ¬ sort.Foreign heap.blocks addr) :
    ¬ sort.Foreign (sort.restore later heap).blocks addr := by
  rintro ⟨block, at_, other⟩
  cases there : later.blocks addr with
  | none => simp only [restore, there, Option.map_none, reduceCtorEq] at at_
  | some now =>
      cases here : heap.blocks addr with
      | none =>
          simp only [restore, there, here, Option.map_some, Option.some_inj] at at_
          subst at_
          rw [sort.pick_put] at other
          cases other
      | some old =>
          cases picked : sort.pick old.cell with
          | none => exact native ⟨old, here, picked⟩
          | some sub =>
              simp only [restore, there, here, Option.map_some, picked, Option.isNone_some, Bool.false_eq_true, if_false,
                Option.some_inj] at at_
              subst at_
              rw [sort.pick_put] at other
              cases other

end CellSort

namespace Partition

open Objects

variable {Family Obj Form Tag Cell Sub : Type} {sort : CellSort Cell Sub} {kind : Kind Obj Form Tag Sub}
  {family : Family} {owned changed : Family × Nat -> List Addr} {heap : Heap Tag Cell} {objs : Nat -> Obj}
  {forms formsLater : Nat -> Form} {later : Objects Obj Tag Sub} {addr : Addr}

open Classical in
/-- The blocks that the objects of a family do not own. -/
noncomputable def elsewhere (owned : Family × Nat -> List Addr) (family : Family) (blocks : Blocks Tag Sub) :
    Blocks Tag Sub := fun addr =>
  if exists var, addr ∈ owned (family, var) then none else blocks addr

theorem elsewhere_of_owned {blocks : Blocks Tag Sub} {var : Nat} (mine : addr ∈ owned (family, var)) :
    elsewhere owned family blocks addr = none :=
  if_pos ⟨var, mine⟩

theorem elsewhere_of_not_owned {blocks : Blocks Tag Sub} (others : forall var, addr ∉ owned (family, var)) :
    elsewhere owned family blocks addr = blocks addr :=
  if_neg fun ⟨var, mine⟩ => others var mine

/-- The objects of one family among all the others. -/
theorem focus (division : Partition heap.blocks owned)
    (mine : forall var, owned (family, var) = kind.owned (objs var) (forms var))
    (held : forall var, kind.Holds (sort.view heap).blocks (objs var) (forms var)) :
    Among kind (elsewhere owned family (sort.view heap).blocks) ⟨objs, sort.view heap⟩ forms := by
  have own : forall var addr, addr ∈ kind.owned (objs var) (forms var) -> addr ∈ owned (family, var) := by
    intro var addr inside
    rwa [mine]
  constructor
  · constructor
    · intro var
      apply kind.congr (held var)
      exact fun addr inside => without_of_none (elsewhere_of_owned (own var addr inside))
    · constructor
      · intro var addr inside
        have owns := own var addr inside
        change without _ _ addr ≠ none
        rw [without_of_none (elsewhere_of_owned owns), ne_eq, sort.view_eq_none]
        exact division.live (family, var) addr owns
      · intro addr alive
        change without _ (sort.view heap).blocks addr ≠ none at alive
        by_cases inside : exists var, addr ∈ owned (family, var)
        · rcases inside with ⟨var, inside⟩
          rw [mine] at inside
          exact ⟨var, inside⟩
        · have others : forall var, addr ∉ owned (family, var) := fun var also => inside ⟨var, also⟩
          have same : elsewhere owned family (sort.view heap).blocks addr = (sort.view heap).blocks addr :=
            elsewhere_of_not_owned others
          by_cases dead : (sort.view heap).blocks addr = none
          · rw [without_of_none (same.trans dead)] at alive
            exact absurd dead alive
          · rw [without_of_ne (same.symm ▸ dead)] at alive
            exact absurd rfl alive
      · intro left right addr inLeft inRight
        exact congrArg Prod.snd
          (division.apart (family, left) (family, right) addr (own left addr inLeft) (own right addr inRight))
  · intro addr taken
    by_cases inside : exists var, addr ∈ owned (family, var)
    · rcases inside with ⟨var, inside⟩
      exact absurd (elsewhere_of_owned inside) taken
    · exact (elsewhere_of_not_owned fun var also => inside ⟨var, also⟩).symm

/-- What the objects of one family leave for all. -/
structure Refocused (sort : CellSort Cell Sub) (family : Family) (owned changed : Family × Nat -> List Addr)
    (heap : Heap Tag Cell) (later : Heap Tag Sub) : Prop where
  division : Partition (sort.restore later heap).blocks changed
  others : forall other var addr, other ≠ family -> addr ∈ owned (other, var) ->
    (sort.restore later heap).blocks addr = heap.blocks addr
  view : (sort.view (sort.restore later heap)).blocks = later.blocks
  native : forall var addr, addr ∈ changed (family, var) -> ¬ sort.Foreign (sort.restore later heap).blocks addr

/-- The objects of one family have acted, among all the others. -/
theorem refocus (division : Partition heap.blocks owned)
    (native : forall var addr, addr ∈ owned (family, var) -> ¬ sort.Foreign heap.blocks addr)
    (among : Among kind (elsewhere owned family (sort.view heap).blocks) later formsLater)
    (mine : forall var, changed (family, var) = kind.owned (later.objs var) (formsLater var))
    (rest : forall other var, other ≠ family -> changed (other, var) = owned (other, var)) :
    Refocused sort family owned changed heap later.mem := by
  -- a live block that is not the family's is taken, and is seen as it was
  have taken : forall addr, heap.blocks addr ≠ none -> (forall var, addr ∉ owned (family, var)) ->
      elsewhere owned family (sort.view heap).blocks addr ≠ none := by
    intro addr alive others
    rw [elsewhere_of_not_owned others, ne_eq, sort.view_eq_none]
    exact alive
  have still : forall addr, heap.blocks addr ≠ none -> (forall var, addr ∉ owned (family, var)) ->
      later.mem.blocks addr = (sort.view heap).blocks addr := by
    intro addr alive others
    exact (among.kept addr (taken addr alive others)).trans (elsewhere_of_not_owned others)
  have foreign : forall addr, sort.Foreign heap.blocks addr ->
      later.mem.blocks addr = (sort.view heap).blocks addr := by
    rintro addr ⟨block, here, other⟩
    apply still addr
    · rw [here]
      exact Option.some_ne_none block
    · exact fun var inside => native var addr inside ⟨block, here, other⟩
  have elsewheres : forall other var addr, other ≠ family -> addr ∈ owned (other, var) ->
      heap.blocks addr ≠ none ∧ forall place, addr ∉ owned (family, place) := by
    intro other var addr different inside
    refine ⟨division.live (other, var) addr inside, fun place also => different ?_⟩
    exact congrArg Prod.fst (division.apart (other, var) (family, place) addr inside also)
  have owns : forall var addr, addr ∈ changed (family, var) ->
      elsewhere owned family (sort.view heap).blocks addr = none := by
    intro var addr inside
    rw [mine] at inside
    exact among.free inside
  refine ⟨⟨?_, ?_, ?_⟩, ?_, ?_, ?_⟩
  · rintro ⟨other, var⟩ addr inside
    rw [ne_eq, sort.restore_eq_none]
    by_cases same : other = family
    · subst same
      rw [mine] at inside
      exact kind.live (among.held var) inside
    · rw [rest other var same] at inside
      rcases elsewheres other var addr same inside with ⟨alive, others⟩
      rw [still addr alive others, sort.view_eq_none]
      exact alive
  · intro addr alive
    rw [ne_eq, sort.restore_eq_none] at alive
    by_cases free : elsewhere owned family (sort.view heap).blocks addr = none
    · have there : (aside (elsewhere owned family (sort.view heap).blocks) later).mem.blocks addr ≠ none := by
        change without _ _ addr ≠ none
        rwa [without_of_none free]
      rcases among.own.division.covered addr there with ⟨var, inside⟩
      refine ⟨(family, var), ?_⟩
      rw [mine]
      exact inside
    · have others : forall var, addr ∉ owned (family, var) := fun var inside => free (elsewhere_of_owned inside)
      rw [elsewhere_of_not_owned others, sort.view_eq_none] at free
      rcases division.covered addr free with ⟨⟨other, var⟩, inside⟩
      have different : other ≠ family := by
        rintro rfl
        exact others var inside
      exact ⟨(other, var), by rwa [rest other var different]⟩
  · rintro ⟨left, i⟩ ⟨right, j⟩ addr inLeft inRight
    by_cases first : left = family <;> by_cases second : right = family
    · subst first second
      rw [mine] at inLeft inRight
      exact congrArg (Prod.mk right) (among.own.division.apart i j addr inLeft inRight)
    · subst first
      rw [rest right j second] at inRight
      rcases elsewheres right j addr second inRight with ⟨alive, others⟩
      exact absurd (owns i addr inLeft) (taken addr alive others)
    · subst second
      rw [rest left i first] at inLeft
      rcases elsewheres left i addr first inLeft with ⟨alive, others⟩
      exact absurd (owns j addr inRight) (taken addr alive others)
    · rw [rest left i first] at inLeft
      rw [rest right j second] at inRight
      exact division.apart (left, i) (right, j) addr inLeft inRight
  · intro other var addr different inside
    rcases elsewheres other var addr different inside with ⟨alive, others⟩
    exact sort.restore_same (still addr alive others)
  · funext addr
    exact sort.view_restore (foreign addr)
  · intro var addr inside
    apply sort.not_foreign_restore
    rintro ⟨block, here, other⟩
    have alive : heap.blocks addr ≠ none := by
      rw [here]
      exact Option.some_ne_none block
    apply taken addr alive _ (owns var addr inside)
    exact fun place also => native place addr also ⟨block, here, other⟩

end Partition

/-- The variables of a program, of several kinds, and its memory. -/
structure Mixed {Family : Type} (Obj : Family -> Type) (Tag Cell : Type) where
  objs : (family : Family) -> Nat -> Obj family
  mem : Heap Tag Cell

namespace Mixed

open Objects

variable {Family : Type} {Obj Form Sub : Family -> Type} {Tag Cell β : Type}

/-- One variable is overwritten. -/
def put [DecidableEq Family] (s : Mixed Obj Tag Cell) (family : Family) (var : Nat) (obj : Obj family) :
    Mixed Obj Tag Cell :=
  { s with objs := update s.objs family (update (s.objs family) var obj) }

/-- Run code for the objects of one family. -/
def on [DecidableEq Family] (sorts : (family : Family) -> CellSort Cell (Sub family)) (family : Family)
    (run : Run (Objects (Obj family) Tag (Sub family)) β) : Run (Mixed Obj Tag Cell) β :=
  zoom (fun s => ⟨s.objs family, (sorts family).view s.mem⟩)
    (fun later s => ⟨update s.objs family later.objs, (sorts family).restore later.mem s.mem⟩) run

/-- The blocks that a variable owns. -/
def owned (kinds : (family : Family) -> Kind (Obj family) (Form family) Tag (Sub family)) (s : Mixed Obj Tag Cell)
    (forms : (family : Family) -> Nat -> Form family) (owner : Family × Nat) : List Addr :=
  (kinds owner.1).owned (s.objs owner.1 owner.2) (forms owner.1 owner.2)

/-- Every object is held by cells of its type, and the live blocks are divided among the objects. -/
structure Invariant (kinds : (family : Family) -> Kind (Obj family) (Form family) Tag (Sub family))
    (sorts : (family : Family) -> CellSort Cell (Sub family)) (s : Mixed Obj Tag Cell)
    (forms : (family : Family) -> Nat -> Form family) : Prop where
  division : Partition s.mem.blocks (owned kinds s forms)
  held : forall family var,
    (kinds family).Holds ((sorts family).view s.mem).blocks (s.objs family var) (forms family var)
  native : forall family var addr, addr ∈ (kinds family).owned (s.objs family var) (forms family var) ->
    ¬ (sorts family).Foreign s.mem.blocks addr

namespace Invariant

variable {kinds : (family : Family) -> Kind (Obj family) (Form family) Tag (Sub family)}
  {sorts : (family : Family) -> CellSort Cell (Sub family)} {s : Mixed Obj Tag Cell}
  {forms : (family : Family) -> Nat -> Form family} {family : Family}

/-- Objects that own nothing, in a memory where nothing is live. -/
theorem start (idle : (family : Family) -> Obj family) (bare : (family : Family) -> Form family)
    (held : forall family, (kinds family).Holds (fun _ => none) (idle family) (bare family))
    (nothing : forall family, (kinds family).owned (idle family) (bare family) = [])
    (answers : Nat -> Option Addr) :
    Invariant kinds sorts (⟨fun family _ => idle family, ⟨fun _ => none, answers, 0⟩⟩ : Mixed Obj Tag Cell)
      fun family _ => bare family := by
  constructor
  · constructor
    · intro owner addr inside
      rw [owned, nothing] at inside
      exact absurd inside List.not_mem_nil
    · exact fun _ live => absurd rfl live
    · intro owner other addr inside
      rw [owned, nothing] at inside
      exact absurd inside List.not_mem_nil
  · exact fun family _ => held family
  · intro family var addr inside
    rw [nothing] at inside
    exact absurd inside List.not_mem_nil

variable [DecidableEq Family]

/-- What code for one family does among the objects of others, it does among all. -/
theorem ends_on (invariant : Invariant kinds sorts s forms) {run : Run (Objects (Obj family) Tag (Sub family)) β}
    (fact : β -> (Nat -> Obj family) -> Prop)
    (ends : forall others, Among (kinds family) others ⟨s.objs family, (sorts family).view s.mem⟩ (forms family) ->
      Ends run ⟨s.objs family, (sorts family).view s.mem⟩ fun answer later =>
        fact answer later.objs ∧ exists after, Among (kinds family) others later after) :
    Ends (on sorts family run) s fun answer later =>
      fact answer (later.objs family) ∧ exists after, Invariant kinds sorts later after := by
  have among := invariant.division.focus (fun _ => rfl) (invariant.held family)
  rw [on, ends_zoom]
  refine (ends _ among).mono ?_
  rintro answer later ⟨true_, after, acted⟩
  have here : forall var, owned kinds (⟨update s.objs family later.objs,
      (sorts family).restore later.mem s.mem⟩ : Mixed Obj Tag Cell) (update forms family after) (family, var) =
        (kinds family).owned (later.objs var) (after var) := by
    intro var
    simp only [owned, update_self]
  have rest : forall other var, other ≠ family -> owned kinds (⟨update s.objs family later.objs,
      (sorts family).restore later.mem s.mem⟩ : Mixed Obj Tag Cell) (update forms family after) (other, var) =
        owned kinds s forms (other, var) := by
    intro other var different
    simp only [owned, update_of_ne different]
  have focused := invariant.division.refocus (invariant.native family) acted here rest
  refine ⟨by simpa only [update_self] using true_, update forms family after, focused.division, ?_, ?_⟩
  · intro other var
    by_cases same : other = family
    · subst same
      simp only [update_self, focused.view]
      exact acted.held var
    · simp only [update_of_ne same]
      apply (kinds other).congr (invariant.held other var)
      exact fun addr mine => (sorts other).view_congr (focused.others other var addr same mine)
  · intro other var addr mine
    by_cases same : other = family
    · subst same
      exact focused.native var addr mine
    · simp only [update_of_ne same] at mine
      have unchanged := focused.others other var addr same mine
      rintro ⟨block, at_, foreign⟩
      exact invariant.native other var addr mine ⟨block, unchanged.symm.trans at_, foreign⟩

/-- What code for one family leaves as it was is left as it was for all. -/
theorem ends_on_unchanged (invariant : Invariant kinds sorts s forms)
    {run : Run (Objects (Obj family) Tag (Sub family)) β} {failed : β -> Prop}
    (ends : forall others, Among (kinds family) others ⟨s.objs family, (sorts family).view s.mem⟩ (forms family) ->
      Ends run ⟨s.objs family, (sorts family).view s.mem⟩ fun answer later => failed answer ->
        later.objs = s.objs family ∧ later.mem.blocks = ((sorts family).view s.mem).blocks) :
    Ends (on sorts family run) s fun answer later => failed answer ->
      later.objs = s.objs ∧ later.mem.blocks = s.mem.blocks := by
  rw [on, ends_zoom]
  refine (ends _ (invariant.division.focus (fun _ => rfl) (invariant.held family))).mono ?_
  intro answer later unchanged failure
  rcases unchanged failure with ⟨sameObjs, same⟩
  constructor
  · change update s.objs family later.objs = s.objs
    rw [sameObjs, update_eq_self]
  · funext addr
    exact (sorts family).restore_same (congrFun same addr)

/-- The block of an object of one family goes to an object of another one. -/
theorem handed (invariant : Invariant kinds sorts s forms) {giver taker : Family} {from_ to_ : Nat}
    (different : giver ≠ taker) {given : Obj giver} {taken : Obj taker} {givenForm : Form giver}
    {takenForm : Form taker} (bare : (kinds taker).owned (s.objs taker to_) (forms taker to_) = [])
    (heldGiver : (kinds giver).Holds ((sorts giver).view s.mem).blocks given givenForm)
    (emptied : (kinds giver).owned given givenForm = [])
    (heldTaker : (kinds taker).Holds ((sorts taker).view s.mem).blocks taken takenForm)
    (same : (kinds taker).owned taken takenForm = (kinds giver).owned (s.objs giver from_) (forms giver from_))
    (native : forall addr, addr ∈ (kinds taker).owned taken takenForm -> ¬ (sorts taker).Foreign s.mem.blocks addr) :
    exists after, Invariant kinds sorts ((s.put giver from_ given).put taker to_ taken) after := by
  have there : update s.objs giver (update (s.objs giver) from_ given) taker = s.objs taker :=
    update_of_ne (Ne.symm different) _ _
  simp only [put, there]
  -- what is true of the objects before and of the two new ones is true of the objects after
  have cases_ : forall fact : (family : Family) -> Nat -> Obj family -> Form family -> Prop,
      fact giver from_ given givenForm -> fact taker to_ taken takenForm ->
      (forall family var, (family, var) ≠ (giver, from_) -> (family, var) ≠ (taker, to_) ->
        fact family var (s.objs family var) (forms family var)) ->
      forall family var, fact family var
        (update (update s.objs giver (update (s.objs giver) from_ given)) taker
          (update (s.objs taker) to_ taken) family var)
        (update (update forms giver (update (forms giver) from_ givenForm)) taker
          (update (forms taker) to_ takenForm) family var) := by
    intro fact atGiver atTaker atRest family var
    by_cases first : family = taker
    · subst first
      simp only [update_self]
      by_cases here : var = to_
      · subst here
        simpa only [update_self] using atTaker
      · simp only [update_of_ne here]
        exact atRest family var (fun equal => different (congrArg Prod.fst equal).symm)
          fun equal => here (congrArg Prod.snd equal)
    · simp only [update_of_ne first]
      by_cases second : family = giver
      · subst second
        simp only [update_self]
        by_cases here : var = from_
        · subst here
          simpa only [update_self] using atGiver
        · simp only [update_of_ne here]
          exact atRest family var (fun equal => here (congrArg Prod.snd equal))
            fun equal => first (congrArg Prod.fst equal)
      · simp only [update_of_ne second]
        exact atRest family var (fun equal => second (congrArg Prod.fst equal))
          fun equal => first (congrArg Prod.fst equal)
  refine ⟨update (update forms giver (update (forms giver) from_ givenForm)) taker
    (update (forms taker) to_ takenForm), ?_, ?_, ?_⟩
  · have traded := invariant.division.reindex (Equiv.swap (giver, from_) (taker, to_))
    convert traded using 1
    funext owner
    rcases owner with ⟨family, var⟩
    apply cases_ fun family var obj form => (kinds family).owned obj form =
      owned kinds s forms (Equiv.swap (giver, from_) (taker, to_) (family, var))
    · rw [Equiv.swap_apply_left, emptied]
      exact bare.symm
    · rw [Equiv.swap_apply_right, same]
      rfl
    · intro family var notGiver notTaker
      rw [Equiv.swap_apply_of_ne_of_ne notGiver notTaker]
      rfl
  · apply cases_ fun family var obj form => (kinds family).Holds ((sorts family).view s.mem).blocks obj form
    · exact heldGiver
    · exact heldTaker
    · exact fun family var _ _ => invariant.held family var
  · apply cases_ fun family var obj form => forall addr, addr ∈ (kinds family).owned obj form ->
      ¬ (sorts family).Foreign s.mem.blocks addr
    · intro addr mine
      rw [emptied] at mine
      exact absurd mine List.not_mem_nil
    · exact native
    · exact fun family var _ _ => invariant.native family var

end Invariant

end Mixed

end Foundation
end TerseDsa
