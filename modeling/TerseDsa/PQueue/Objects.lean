import Mathlib.Data.Multiset.AddSub
import TerseDsa.PQueue.Operations
import TerseDsa.Vec.Objects

namespace TerseDsa

open Foundation Run
open Function (update update_idem update_self update_of_ne update_eq_self)

/-!
# Queues as objects

Queues are numbered variables over one memory.  `Follows` runs a program of
calls and beside it a bag for each queue: the elems that were put in and not
taken out, and the comparator that serves them.  A call that takes out the
greatest elem takes the one that `tda_pqueue_top` points at.
-/

namespace PQueue

open Objects PQueueObjects

variable {α C : Type} {s later : PQueueObjects α C}

/-- What a queue is for: a bag of elems, served by a comparator. -/
structure Bag (α C : Type) where
  elems : Multiset α
  cmp : Option (Option Addr -> Cmp α C)
  ctx : Option Addr

/-- The bag of a variable that is no queue. -/
def Bag.bare : Bag α C := ⟨0, none, none⟩

/-! ## Calls -/

/-- The operations on one queue, with their arguments. -/
inductive Op (α : Type) where
  | push (val : Operand α)
  | extend (src : SpanView α)
  | pop
  | popTo
  | replaceTop (val : Operand α)
  | clear
  | reserve (newCap : Nat)
  | shrinkToFit

/-- The elem that `val` points at. -/
def PointsAt (heap : VecMem α) (self : PQueue α C) (elem : α) : Operand α -> Prop
  | .outside val => val = elem
  | .slot slot => Ends (Vec.get self.vec slot) heap fun read later => read = elem ∧ later = heap

/-- The elem that `tda_pqueue_top` points at. -/
def TopIs (heap : VecMem α) (self : PQueue α C) (elem : α) : Prop :=
  Ends (top self) heap fun read later => read = elem ∧ later = heap

namespace Op

/-- What the caller has to see to; `out` of `pop_to` is outside the queue. -/
def Allowed (self : PQueue α C) : Op α -> Prop
  | push val => Vec.Among self.vec val
  | extend src => self.vec.elem = src.elem
  | pop | popTo => 0 < self.vec.len
  | replaceTop val => 0 < self.vec.len ∧ Vec.Among self.vec val
  | clear | reserve _ | shrinkToFit => True

/-- Run it; functions without a status succeed. -/
def run : Op α -> PQueue α C -> C -> Run (VecMem α) (Status × Option α × PQueue α C × C)
  | push val, self, world => do
      let (st, after, world) ← PQueue.push self val world
      return (st, none, after, world)
  | extend src, self, world => do
      let (st, after, world) ← PQueue.extend self src world
      return (st, none, after, world)
  | pop, self, world => do
      let (after, world) ← PQueue.pop self world
      return (.ok, none, after, world)
  | popTo, self, world => do
      let (val, after, world) ← PQueue.popTo self .outside world
      return (.ok, some val, after, world)
  | replaceTop val, self, world => do
      let world ← PQueue.replaceTop self val world
      return (.ok, none, self, world)
  | clear, self, world => do
      return (.ok, none, ← PQueue.clear self, world)
  | reserve newCap, self, world => do
      let (st, after) ← PQueue.reserve self newCap
      return (st, none, after, world)
  | shrinkToFit, self, world => do
      let (st, after) ← PQueue.shrinkToFit self
      return (st, none, after, world)

/-- What becomes of the elems of a bag, and what is handed out. -/
def Effect (heap : VecMem α) (self : PQueue α C) (elems : Multiset α) (handed : Option α) (next : Multiset α) :
    Op α -> Prop
  | push val => handed = none ∧ exists elem, PointsAt heap self elem val ∧ next = elem ::ₘ elems
  | extend src => handed = none ∧ next = elems + src.elems
  | pop => handed = none ∧ exists greatest, TopIs heap self greatest ∧ elems = greatest ::ₘ next
  | popTo => exists greatest, handed = some greatest ∧ TopIs heap self greatest ∧ elems = greatest ::ₘ next
  | replaceTop val => handed = none ∧ exists greatest elem rest, TopIs heap self greatest ∧
      PointsAt heap self elem val ∧ elems = greatest ::ₘ rest ∧ next = elem ::ₘ rest
  | clear => handed = none ∧ next = 0
  | reserve _ | shrinkToFit => handed = none ∧ next = elems

/-- The operation had its effect, or was refused and did nothing. -/
def Done (heap : VecMem α) (self : PQueue α C) (row : List α) (world : C) (op : Op α)
    (result : Status × Option α × PQueue α C × C) (later : VecMem α) : Prop :=
  (exists handed after next now, result = (.ok, handed, after, next) ∧
    Tends heap.blocks later.blocks self after now ∧ op.Effect heap self row handed now) ∨
  (result = (.errNoMem, none, self, world) ∧ later.blocks = heap.blocks)

end Op

/-! ## The operations on bags -/

section Rules

variable {heap : VecMem α} {self : PQueue α C} {row : List α} {world : C}

theorem Holds.topIs {val : α} (holds : Holds heap.blocks self row) (root : row[0]? = some val) :
    TopIs heap self val := (ends_top holds root).mpr ⟨rfl, rfl⟩

/-- An operand that is allowed points at an elem. -/
theorem Holds.pointsAt {named : Operand α} (holds : Holds heap.blocks self row) (among : Vec.Among self.vec named) :
    exists val, Vec.Names row val named ∧ PointsAt heap self val named := by
  rcases holds.vec.names among with ⟨val, _, names⟩
  refine ⟨val, names, ?_⟩
  cases named with
  | outside given => exact names
  | slot slot => exact (Vec.ends_get holds.vec names).mpr ⟨rfl, rfl⟩

theorem Op.ends_run (op : Op α) (holds : Holds heap.blocks self row) (allowed : op.Allowed self) :
    Ends (op.run self world) heap (Op.Done heap self row world op) := by
  have filled : 0 < self.vec.len -> row ≠ [] := by
    intro positive
    exact List.ne_nil_of_length_pos (holds.vec.len ▸ positive)
  cases op with
  | push val =>
      rcases holds.pointsAt allowed with ⟨elem, names, pointsAt⟩
      simp only [Op.run, ends_bind, ends_pure]
      apply ends_push holds names
      · exact fun later same => Or.inr ⟨rfl, same⟩
      · intro after now next later perm tends
        exact Or.inl ⟨none, after, next, now, rfl, tends, rfl, elem, pointsAt, Multiset.coe_eq_coe.mpr perm⟩
  | extend src =>
      simp only [Op.run, ends_bind, ends_pure]
      apply ends_extend holds allowed
      · exact fun later same => Or.inr ⟨rfl, same⟩
      · intro after now next later perm tends
        exact Or.inl ⟨none, after, next, now, rfl, tends, rfl, Multiset.coe_eq_coe.mpr perm⟩
  | pop =>
      simp only [Op.run, ends_bind, ends_pure]
      apply ends_pop holds (filled allowed)
      intro after top rest next later root perm tends
      exact Or.inl ⟨none, after, next, rest, rfl, tends, rfl, top, holds.topIs root, Multiset.coe_eq_coe.mpr perm⟩
  | popTo =>
      simp only [Op.run, ends_bind, ends_pure]
      apply ends_popTo holds (filled allowed)
      intro after top rest next later root perm tends
      exact Or.inl ⟨some top, after, next, rest, rfl, tends, top, rfl, holds.topIs root, Multiset.coe_eq_coe.mpr perm⟩
  | replaceTop val =>
      rcases holds.pointsAt allowed.2 with ⟨elem, names, pointsAt⟩
      simp only [Op.run, ends_bind, ends_pure]
      apply ends_replaceTop holds (filled allowed.1) names
      intro top rest now next later split perm tends
      have root : row[0]? = some top := by
        rw [split]
        rfl
      refine Or.inl ⟨none, self, next, now, rfl, tends, rfl, top, elem, rest, holds.topIs root, pointsAt, ?_, ?_⟩
      · rw [split]
        rfl
      · exact Multiset.coe_eq_coe.mpr perm
  | clear =>
      simp only [Op.run, ends_bind, ends_pure]
      apply ends_clear holds
      exact fun after tends => Or.inl ⟨none, after, world, [], rfl, tends, rfl, rfl⟩
  | reserve newCap =>
      simp only [Op.run, ends_bind, ends_pure]
      apply ends_reserve holds
      · exact fun later same => Or.inr ⟨rfl, same⟩
      · exact fun after later tends => Or.inl ⟨none, after, world, row, rfl, tends, rfl, rfl⟩
  | shrinkToFit =>
      simp only [Op.run, ends_bind, ends_pure]
      apply ends_shrinkToFit holds
      · exact fun later same => Or.inr ⟨rfl, same⟩
      · exact fun after later tends => Or.inl ⟨none, after, world, row, rfl, tends, rfl, rfl⟩

end Rules

/-- The constructors that write to `out` only when they succeed. -/
inductive Maker (α C : Type) where
  | initCap (cap : Nat) (elem : Layout) (cmp : Option Addr -> Cmp α C) (ctx : Option Addr) (al : Al)
  | fromData (data : List α) (elem : Layout) (cmp : Option Addr -> Cmp α C) (ctx : Option Addr) (al : Al)
  | fromSpan (src : SpanView α) (cmp : Option Addr -> Cmp α C) (ctx : Option Addr) (al : Al)
  | copy (self : Nat)
  | copyWith (self : Nat) (al : Al)

namespace Maker

/-- Build the object. -/
def make (world : C) : Maker α C -> Run (PQueueObjects α C) (Status × Option (PQueue α C) × C)
  | initCap cap elem cmp ctx al => do
      let (st, out) ← within (PQueue.initCap cap elem cmp ctx al)
      return (st, out, world)
  | fromData data elem cmp ctx al => within (PQueue.fromData data elem cmp ctx al world)
  | fromSpan src cmp ctx al => within (PQueue.fromSpan src cmp ctx al world)
  | copy self => do
      let (st, out) ← within (PQueue.copy (← load self))
      return (st, out, world)
  | copyWith self al => do
      let (st, out) ← within (PQueue.copyWith (← load self) al)
      return (st, out, world)

/-- What the caller has to see to. -/
def Allowed (s : PQueueObjects α C) : Maker α C -> Prop
  | initCap _ elem _ _ al | fromData _ elem _ _ al => elem.isType = true ∧ al.isSome = true
  | fromSpan src _ _ al => src.elem.isType = true ∧ al.isSome = true
  | copy self => (s.objs self).vec.al.isSome = true
  | copyWith self al => (s.objs self).vec.al.isSome = true ∧ al.isSome = true

/-- The bag of the object. -/
def contents (abs : Nat -> Bag α C) : Maker α C -> Bag α C
  | initCap _ _ cmp ctx _ => ⟨0, some cmp, ctx⟩
  | fromData data _ cmp ctx _ => ⟨data, some cmp, ctx⟩
  | fromSpan src cmp ctx _ => ⟨src.elems, some cmp, ctx⟩
  | copy self | copyWith self _ => abs self

end Maker

/-- A call of a public operation of queues, with its arguments. -/
inductive Call (α C : Type) where
  | init (out : Nat) (elem : Layout) (cmp : Option Addr -> Cmp α C) (ctx : Option Addr) (al : Al)
  | make (out : Nat) (maker : Maker α C)
  | deinit (self : Nat)
  | copyAssign (self other : Nat)
  | moveAssign (self other : Nat)
  | swap (self other : Nat)
  | op (self : Nat) (task : Op α)

namespace Call

/-- Make the call; functions without a status succeed. -/
def run (world : C) : Call α C -> Run (PQueueObjects α C) (Status × Option α × C)
  | init out elem cmp ctx al => do
      store out (← within (PQueue.init elem cmp ctx al))
      return (.ok, none, world)
  | make out maker => do
      match ← maker.make world with
      | (st, some queue, world) =>
          store out queue
          return (st, none, world)
      | (st, none, world) => return (st, none, world)
  | deinit self => do
      store self (← within (PQueue.deinit (← load self)))
      return (.ok, none, world)
  | copyAssign self other => do
      let st ← PQueueObjects.copyAssign self other
      return (st, none, world)
  | moveAssign self other => do
      PQueueObjects.moveAssign self other
      return (.ok, none, world)
  | swap self other => do
      PQueueObjects.swap self other
      return (.ok, none, world)
  | op self task => do
      let (st, handed, after, world) ← within (task.run (← load self) world)
      store self after
      return (st, handed, world)

/-- Two queues of one elem layout. -/
def Alike (s : PQueueObjects α C) (self other : Nat) : Prop := (s.objs self).vec.elem = (s.objs other).vec.elem

/-- What the caller has to see to: `self` and `other` are initialised and of one layout, and
`out` is a variable that owns no block, since it is overwritten. -/
def Allowed (s : PQueueObjects α C) : Call α C -> Prop
  | init out elem _ _ al => (s.objs out).vec.data = none ∧ elem.isType = true ∧ al.isSome = true
  | make out maker => (s.objs out).vec.data = none ∧ maker.Allowed s
  | deinit _ => True
  | copyAssign self other | swap self other =>
      (s.objs self).vec.al.isSome = true ∧ (s.objs other).vec.al.isSome = true ∧ Alike s self other
  | moveAssign self other =>
      (s.objs other).vec.al.isSome = true ∧ ((s.objs self).vec.al.isSome = true -> Alike s self other)
  | op self task => (s.objs self).vec.al.isSome = true ∧ task.Allowed (s.objs self)

/-- What becomes of the bags, and what is handed out, by a call that is not refused. -/
def Effect (s : PQueueObjects α C) (abs : Nat -> Bag α C) (handed : Option α) (next : Nat -> Bag α C) :
    Call α C -> Prop
  | init out _ cmp ctx _ => handed = none ∧ next = update abs out ⟨0, some cmp, ctx⟩
  | make out maker => handed = none ∧ next = update abs out (maker.contents abs)
  | deinit self => handed = none ∧ next = update abs self Bag.bare
  | copyAssign self other => handed = none ∧ next = update abs self (abs other)
  | moveAssign self other => handed = none ∧ next = if self = other then abs else
      update (update abs self (abs other)) other { abs other with elems := 0 }
  | swap self other => handed = none ∧ next = fun var => abs (Equiv.swap self other var)
  | op self task => exists elems, task.Effect s.mem (s.objs self) (abs self).elems handed elems ∧
      next = update abs self { abs self with elems := elems }

end Call

/-- A run of a program, and of the bags beside it: both start with nothing, over an arbitrary
script of the allocator.  Before each call what is behind the contexts may be anything; a call
that is refused is none on the bags. -/
inductive Follows : PQueueObjects α C -> (Nat -> Bag α C) -> Prop where
  | start (answers : Nat -> Option Addr) :
      Follows ⟨fun _ => inert, ⟨fun _ => none, answers, 0⟩⟩ fun _ => Bag.bare
  | call {s later : PQueueObjects α C} {abs next : Nat -> Bag α C} {handed : Option α} {left : C}
      (before : Follows s abs) (call : Call α C) (world : C) (allowed : call.Allowed s)
      (ran : call.run world s = some ((.ok, handed, left), later)) (effect : call.Effect s abs handed next) :
      Follows later next
  | refused {s later : PQueueObjects α C} {abs : Nat -> Bag α C} {st : Status} {handed : Option α} {left : C}
      (before : Follows s abs) (call : Call α C) (world : C) (allowed : call.Allowed s)
      (ran : call.run world s = some ((st, handed, left), later)) (fails : st ≠ .ok) : Follows later abs

end PQueue

/-!
## Queues serve their bags in order

Whatever program of queue operations is run, each queue holds its bag as a heap
under the comparator it has at that time.
-/

namespace PQueue

open Objects PQueueObjects

variable {α C : Type} {s later : PQueueObjects α C} {abs next : Nat -> Bag α C} {others : Blocks AlTag (List (Option α))}
  {self other out : Nat} {world : C}

/-! ## Effects are one -/

theorem reads_unique {S β : Type} {run : Run S β} {start : S} {first second : β}
    (one : Ends run start fun read later => read = first ∧ later = start)
    (two : Ends run start fun read later => read = second ∧ later = start) : first = second := by
  rcases one with ⟨read, _, ran, rfl, _⟩
  exact (two.of_eq ran).1

theorem PointsAt.unique {heap : VecMem α} {queue : PQueue α C} {named : Operand α} {first second : α}
    (one : PointsAt heap queue first named) (two : PointsAt heap queue second named) : first = second := by
  cases named with
  | outside val => exact (Eq.symm one).trans two
  | slot slot => exact reads_unique one two

theorem Op.Effect.unique {op : Op α} {heap : VecMem α} {queue : PQueue α C} {elems first second : Multiset α}
    {handed answer : Option α} (one : op.Effect heap queue elems handed first)
    (two : op.Effect heap queue elems answer second) : first = second := by
  cases op with
  | push val =>
      rcases one with ⟨_, elem, pointsAt, rfl⟩
      rcases two with ⟨_, same, pointsSame, rfl⟩
      rw [pointsAt.unique pointsSame]
  | extend src => exact one.2.trans two.2.symm
  | pop =>
      rcases one with ⟨_, top, topIs, split⟩
      rcases two with ⟨_, same, topSame, splitSame⟩
      cases reads_unique topIs topSame
      exact (Multiset.cons_inj_right top).mp (split.symm.trans splitSame)
  | popTo =>
      rcases one with ⟨top, _, topIs, split⟩
      rcases two with ⟨same, _, topSame, splitSame⟩
      cases reads_unique topIs topSame
      exact (Multiset.cons_inj_right top).mp (split.symm.trans splitSame)
  | replaceTop val =>
      rcases one with ⟨_, top, elem, rest, topIs, pointsAt, split, rfl⟩
      rcases two with ⟨_, same, given, other, topSame, pointsSame, splitSame, rfl⟩
      cases reads_unique topIs topSame
      rw [pointsAt.unique pointsSame, (Multiset.cons_inj_right top).mp (split.symm.trans splitSame)]
  | clear => exact one.2.trans two.2.symm
  | reserve newCap => exact one.2.trans two.2.symm
  | shrinkToFit => exact one.2.trans two.2.symm

theorem Call.Effect.unique {call : Call α C} {first second : Nat -> Bag α C} {handed answer : Option α}
    (one : call.Effect s abs handed first) (two : call.Effect s abs answer second) : first = second := by
  cases call with
  | op self task =>
      rcases one with ⟨elems, effect, rfl⟩
      rcases two with ⟨same, effectSame, rfl⟩
      rw [effect.unique effectSame]
  | init out elem cmp ctx al => exact one.2.trans two.2.symm
  | make out maker => exact one.2.trans two.2.symm
  | deinit self => exact one.2.trans two.2.symm
  | copyAssign self other => exact one.2.trans two.2.symm
  | moveAssign self other => exact one.2.trans two.2.symm
  | swap self other => exact one.2.trans two.2.symm

/-! ## The invariant -/

/-- A queue with a row of elems in its vec is the bag of these. -/
structure Stands (queue : PQueue α C) (row : List α) (bag : Bag α C) : Prop where
  elems : bag.elems = row
  cmp : queue.cmp = bag.cmp
  ctx : queue.ctx = bag.ctx
  some_ : queue.vec.al.isSome = true -> queue.cmp.isSome = true
  heaped : queue.Heaped row

/-- The vecs hold rows of elems, and each of these is the heap of a bag. -/
def Invariant (others : Blocks AlTag (List (Option α))) (s : PQueueObjects α C) (abs : Nat -> Bag α C) : Prop :=
  exists rows, Vec.Invariant others (vecs s) rows ∧ forall var, Stands (s.objs var) (rows var) (abs var)

theorem Stands.bare : Stands (inert : PQueue α C) [] Bag.bare :=
  ⟨rfl, rfl, rfl, fun real => absurd real Bool.false_ne_true, heaped_nil⟩

theorem vecs_update {objs : Nat -> PQueue α C} {queue : PQueue α C} {mem : VecMem α} :
    vecs ⟨update objs self queue, mem⟩ = ⟨update (fun var => (objs var).vec) self queue.vec, mem⟩ :=
  congrArg (fun objs => Objects.mk objs mem) (Function.comp_update PQueue.vec objs self queue)

section Rows

variable {rows : Nat -> List α}

theorem holds_of (kept : Vec.Invariant others (vecs s) rows) (stands : Stands (s.objs self) (rows self) (abs self))
    (real : (s.objs self).vec.al.isSome = true) : Holds s.mem.blocks (s.objs self) (rows self) :=
  ⟨kept.holds real, stands.some_ real, stands.heaped⟩

theorem updated {queue : PQueue α C} {row : List α} {bag : Bag α C} {mem : VecMem α}
    (kept : Vec.Invariant others ⟨update (vecs s).objs self queue.vec, mem⟩ (update rows self row))
    (stands : forall var, Stands (s.objs var) (rows var) (abs var)) (now : Stands queue row bag) :
    Invariant others ⟨update s.objs self queue, mem⟩ (update abs self bag) := by
  refine ⟨update rows self row, vecs_update ▸ kept, fun var => ?_⟩
  change Stands (update s.objs self queue var) _ _
  by_cases here : var = self
  · subst here
    rw [update_self, update_self, update_self]
    exact now
  · rw [update_of_ne here, update_of_ne here, update_of_ne here]
    exact stands var

end Rows

namespace Invariant

theorem start (answers : Nat -> Option Addr) :
    Invariant (fun _ => none) (⟨fun _ => inert, ⟨fun _ => none, answers, 0⟩⟩ : PQueueObjects α C) fun _ => Bag.bare :=
  ⟨fun _ => [], Objects.Among.start Vec.inert (Or.inl ⟨rfl, rfl⟩) rfl answers, fun _ => Stands.bare⟩

theorem unchanged (invariant : Invariant others s abs) (sameObjs : later.objs = s.objs)
    (same : later.mem.blocks = s.mem.blocks) : Invariant others later abs := by
  rcases invariant with ⟨rows, kept, stands⟩
  refine ⟨rows, Objects.Among.unchanged kept ?_ same, fun var => sameObjs ▸ stands var⟩
  exact congrArg (fun objs var => PQueue.vec (objs var)) sameObjs

/-- A queue that was built goes to a variable that owned nothing. -/
theorem born {queue : PQueue α C} {row : List α} {bag : Bag α C} {mem : VecMem α} (invariant : Invariant others s abs)
    (bare : (s.objs out).vec.data = none) (born : Born s.mem.blocks mem.blocks queue row bag.cmp bag.ctx)
    (known : bag.cmp.isSome = true) (elems : bag.elems = row) :
    Invariant others ⟨update s.objs out queue, mem⟩ (update abs out bag) := by
  rcases invariant with ⟨rows, kept, stands⟩
  rcases born.vec with ⟨elem, al, bornVec⟩
  exact updated (kept.born bare bornVec) stands
    ⟨elems, born.cmp, born.ctx, fun _ => born.cmp.symm ▸ known, born.heaped⟩

/-! ### The calls -/

theorem made (invariant : Invariant others s abs) (maker : Maker α C) (bare : (s.objs out).vec.data = none)
    (allowed : maker.Allowed s) :
    Ends (maker.make world) s fun result later => later.objs = s.objs ∧
      ((exists queue left, result = (.ok, some queue, left) ∧
          Invariant others ⟨update s.objs out queue, later.mem⟩
            (update abs out (maker.contents abs))) ∨
        (result = (.errNoMem, none, world) ∧ later.mem.blocks = s.mem.blocks)) := by
  have copied : forall {self : Nat} {al : Al}, (s.objs self).vec.al.isSome = true -> al.isSome = true ->
      Ends (PQueue.copyWith (s.objs self) al) s.mem fun result mem =>
        (exists queue, result = (.ok, some queue) ∧
          Invariant others ⟨update s.objs out queue, mem⟩ (update abs out (abs self))) ∨
        (result = (.errNoMem, none) ∧ mem.blocks = s.mem.blocks) := by
    intro self al realSelf real
    have again := invariant
    rcases invariant with ⟨rows, kept, stands⟩
    have holds := holds_of kept (stands self) realSelf
    apply ends_copyWith holds real
    · exact fun later same => Or.inr ⟨rfl, same⟩
    · intro after mem built
      refine Or.inl ⟨after, rfl, again.born bare ?_ ((stands self).cmp ▸ holds.cmp) (stands self).elems⟩
      rw [← (stands self).cmp, ← (stands self).ctx]
      exact built
  cases maker with
  | initCap cap elem cmp ctx al =>
      simp only [Maker.make, ends_bind, ends_within, ends_pure, true_and]
      apply ends_initCap allowed.1 allowed.2
      · exact fun later same => Or.inr ⟨rfl, same⟩
      · exact fun after mem built => Or.inl ⟨after, world, rfl, invariant.born bare built rfl rfl⟩
  | fromData data elem cmp ctx al =>
      simp only [Maker.make, ends_within, true_and]
      apply ends_fromData allowed.1 allowed.2
      · exact fun later same => Or.inr ⟨rfl, same⟩
      · intro after row left mem perm built
        exact Or.inl ⟨after, left, rfl, invariant.born bare built rfl (Multiset.coe_eq_coe.mpr perm.symm)⟩
  | fromSpan src cmp ctx al =>
      simp only [Maker.make, ends_within, true_and, PQueue.fromSpan, ends_bind, ends_require, allowed.2]
      apply ends_fromData allowed.1 allowed.2
      · exact fun later same => Or.inr ⟨rfl, same⟩
      · intro after row left mem perm built
        exact Or.inl ⟨after, left, rfl, invariant.born bare built rfl (Multiset.coe_eq_coe.mpr perm.symm)⟩
  | copy self =>
      have asserted : Ends (PQueue.copy (s.objs self)) s.mem = Ends (PQueue.copyWith (s.objs self)
          (s.objs self).vec.al) s.mem := by
        rcases invariant with ⟨rows, kept, stands⟩
        funext post
        rw [PQueue.copy, ends_bind, (holds_of kept (stands self) allowed).ends_assert]
      simp only [Maker.make, ends_bind, ends_load, ends_within, ends_pure, true_and, asserted]
      refine (copied allowed allowed).mono ?_
      rintro result mem (⟨queue, rfl, now⟩ | ⟨rfl, same⟩)
      · exact Or.inl ⟨queue, world, rfl, now⟩
      · exact Or.inr ⟨rfl, same⟩
  | copyWith self al =>
      simp only [Maker.make, ends_bind, ends_load, ends_within, ends_pure, true_and]
      refine (copied allowed.1 allowed.2).mono ?_
      rintro result mem (⟨queue, rfl, now⟩ | ⟨rfl, same⟩)
      · exact Or.inl ⟨queue, world, rfl, now⟩
      · exact Or.inr ⟨rfl, same⟩

/-- One vec is another one in its queue. -/
theorem withVecs_update {after : Vec} {mem : VecMem α} :
    withVecs ⟨update (vecs s).objs self after, mem⟩ s =
      ⟨update s.objs self { s.objs self with vec := after }, mem⟩ := by
  apply congrArg (fun objs => Objects.mk objs mem)
  funext var
  by_cases here : var = self
  · subst here
    dsimp only
    rw [update_self, update_self]
  · dsimp only
    rw [update_of_ne here, update_of_ne here]
    rfl

theorem copyAssigned (invariant : Invariant others s abs) (realSelf : (s.objs self).vec.al.isSome = true)
    (realOther : (s.objs other).vec.al.isSome = true) (alike : Call.Alike s self other) :
    Ends (PQueueObjects.copyAssign self other) s fun st later =>
      (st = .ok ∧ Invariant others later (update abs self (abs other))) ∨
        (st = .errNoMem ∧ later.objs = s.objs ∧ later.mem.blocks = s.mem.blocks) := by
  have before := invariant
  rcases invariant with ⟨rows, kept, stands⟩
  have holdsSelf := holds_of kept (stands self) realSelf
  have holdsOther := holds_of kept (stands other) realOther
  have same : (s.objs self).vec.elem = (s.objs other).vec.elem := alike
  simp only [PQueueObjects.copyAssign, ends_bind, ends_load, holdsSelf.ends_assert, holdsOther.ends_assert,
    expectSame, ends_require, same, true_and]
  by_cases one : self = other
  · subst one
    rw [if_pos rfl, ends_pure, update_eq_self]
    exact Or.inl ⟨rfl, before⟩
  · have different : other ≠ self := Ne.symm one
    simp only [if_neg one, ends_bind, onVecs, ends_zoom, VecObjects.copyAssign]
    apply Objects.Among.ends_copyAssign kept Vec.sound realSelf realOther (decide_eq_true same)
    · exact fun both => absurd both one
    · intro _
      apply Vec.ends_copyOver holdsSelf.vec holdsOther.vec same (Objects.Among.apart kept different)
      · intro mem still
        simp only [if_refused, ends_pure]
        refine Or.inr ⟨trivial, ?_, still⟩
        rw [withVecs_update]
        exact update_eq_self self s.objs
      · intro after mem tends
        have finish : Invariant others ⟨update s.objs self ⟨after, (s.objs other).cmp, (s.objs other).ctx⟩, mem⟩
            (update abs self (abs other)) :=
          updated (kept.tended tends) stands ⟨(stands other).elems, (stands other).cmp, (stands other).ctx,
            fun _ => holdsOther.cmp, holdsOther.heaped⟩
        simp only [if_granted, ends_bind, ends_load, ends_store, withVecs_update,
          update_self, update_of_ne different, update_idem, assertPQueue, ends_require,
          tends.holds.real, holdsOther.cmp, true_and, ends_pure]
        exact Or.inl finish

theorem moveAssigned (invariant : Invariant others s abs) (realOther : (s.objs other).vec.al.isSome = true)
    (alike : (s.objs self).vec.al.isSome = true -> Call.Alike s self other) :
    Ends (PQueueObjects.moveAssign self other) s fun _ later => Invariant others later
      (if self = other then abs else
        update (update abs self (abs other)) other { abs other with elems := 0 }) := by
  have before := invariant
  rcases invariant with ⟨rows, kept, stands⟩
  have holdsOther := holds_of kept (stands other) realOther
  have moved : Ends (if self = other then return () else do
      onVecs (VecObjects.moveAssign α self other)
      let a ← load self
      let b ← load other
      store self { a with cmp := b.cmp, ctx := b.ctx }
      assertPQueue ({ a with cmp := b.cmp, ctx := b.ctx } : PQueue α C)
      assertPQueue b) s fun _ later => Invariant others later (if self = other then abs else
        update (update abs self (abs other)) other { abs other with elems := 0 }) := by
    by_cases one : self = other
    · rw [if_pos one, if_pos one, ends_pure]
      exact before
    · have different : other ≠ self := Ne.symm one
      simp only [if_neg one, ends_bind, onVecs, ends_zoom, VecObjects.moveAssign]
      apply (Objects.Among.ends_moveAssign_real kept Vec.sound realOther fun real => decide_eq_true (alike real)).mono
      rintro _ later ⟨now, realNow, realLeft, untouched⟩
      rw [if_neg one] at now
      simp only [ends_load, ends_store, assertPQueue, ends_bind, ends_require, withVecs, holdsOther.cmp]
      refine ⟨realNow, trivial, realLeft, trivial, update (update rows self (rows other)) other [], ?_, ?_⟩
      · rw [vecs_update, update_eq_self]
        exact now
      · intro var
        change Stands (update (fun var => (⟨later.objs var, (s.objs var).cmp, (s.objs var).ctx⟩ : PQueue α C))
          self ⟨later.objs self, (s.objs other).cmp, (s.objs other).ctx⟩ var) _ _
        by_cases second : var = other
        · subst second
          rw [update_self, update_self, update_of_ne different]
          exact ⟨rfl, (stands var).cmp, (stands var).ctx, fun _ => holdsOther.cmp, heaped_nil⟩
        · rw [update_of_ne second, update_of_ne second]
          by_cases first : var = self
          · subst first
            rw [update_self, update_self, update_self]
            exact ⟨(stands other).elems, (stands other).cmp, (stands other).ctx, fun _ => holdsOther.cmp, holdsOther.heaped⟩
          · rw [update_of_ne first, update_of_ne first, update_of_ne first,
              untouched var first second]
            exact stands var
  simp only [PQueueObjects.moveAssign, ends_bind, ends_load, holdsOther.ends_assert]
  by_cases real : (s.objs self).vec.al.isSome = true
  · have same : (s.objs self).vec.elem = (s.objs other).vec.elem := alike real
    simp only [if_pos real, ends_bind, (holds_of kept (stands self) real).ends_assert, expectSame, ends_require,
      same, true_and]
    exact moved
  · rw [if_neg real]
    exact moved

theorem swapped (invariant : Invariant others s abs) (realSelf : (s.objs self).vec.al.isSome = true)
    (realOther : (s.objs other).vec.al.isSome = true) (alike : Call.Alike s self other) :
    Ends (PQueueObjects.swap self other) s fun _ later =>
      Invariant others later fun var => abs (Equiv.swap self other var) := by
  have before := invariant
  rcases invariant with ⟨rows, kept, stands⟩
  have holdsSelf := holds_of kept (stands self) realSelf
  have holdsOther := holds_of kept (stands other) realOther
  have same : (s.objs self).vec.elem = (s.objs other).vec.elem := alike
  simp only [PQueueObjects.swap, ends_bind, ends_load, holdsSelf.ends_assert, holdsOther.ends_assert,
    expectSame, ends_require, same, true_and]
  by_cases one : self = other
  · subst one
    simp only [if_true, ends_pure, Equiv.swap_self, Equiv.refl_apply]
    exact before
  · simp only [if_neg one, ends_bind, ends_store, holdsSelf.ends_assert, holdsOther.ends_assert]
    rw [update_update_eq_swap]
    exact ⟨_, Objects.Among.traded kept self other, fun var => stands (Equiv.swap self other var)⟩

theorem deinited (invariant : Invariant others s abs) (self : Nat) :
    Ends (PQueue.deinit (s.objs self)) s.mem fun after mem => after = inert ∧
      Invariant others ⟨update s.objs self inert, mem⟩ (update abs self Bag.bare) := by
  rcases invariant with ⟨rows, kept, stands⟩
  simp only [PQueue.deinit, ends_bind, ends_pure, true_and]
  refine (Objects.Among.released kept Vec.sound self).mono ?_
  rintro after mem ⟨_, cleared⟩
  exact updated cleared stands Stands.bare

theorem operated (invariant : Invariant others s abs) (task : Op α) (real : (s.objs self).vec.al.isSome = true)
    (allowed : task.Allowed (s.objs self)) :
    Ends (task.run (s.objs self) world) s.mem fun result mem =>
      (exists handed after left elems, result = (.ok, handed, after, left) ∧
        task.Effect s.mem (s.objs self) (abs self).elems handed elems ∧
        Invariant others ⟨update s.objs self after, mem⟩
          (update abs self { abs self with elems := elems })) ∨
      (result = (.errNoMem, none, s.objs self, world) ∧ mem.blocks = s.mem.blocks) := by
  rcases invariant with ⟨rows, kept, stands⟩
  have holds := holds_of kept (stands self) real
  refine (task.ends_run holds allowed).mono ?_
  rintro result mem (⟨handed, after, left, now, rfl, tends, effect⟩ | refused)
  · rw [← (stands self).elems] at effect
    refine Or.inl ⟨handed, after, left, now, rfl, effect, updated (kept.tended tends.vec) stands ?_⟩
    have tended := holds.tended tends
    exact ⟨rfl, tends.cmp.trans (stands self).cmp, tends.ctx.trans (stands self).ctx, fun _ => tended.cmp, tended.heaped⟩
  · exact Or.inr refused

/-- Every call ends, whatever the allocator answers, and has its effect on the bags; a refused call
leaves everything, and asks no comparator. -/
theorem run (invariant : Invariant others s abs) (call : Call α C) (world : C) (allowed : call.Allowed s) :
    Ends (call.run world) s fun result later =>
      (result.1 = .ok ∧ exists next, call.Effect s abs result.2.1 next ∧ Invariant others later next) ∨
        (result = (.errNoMem, none, world) ∧ later.objs = s.objs ∧ later.mem.blocks = s.mem.blocks) := by
  cases call with
  | init out elem cmp ctx al =>
      simp only [Call.run, PQueue.init, ends_bind, ends_within, ends_require, allowed.2.1, allowed.2.2, true_and,
        Vec.ends_init allowed.2.1 allowed.2.2, ends_store, ends_pure]
      have fresh : Vec.Holds s.mem.blocks ⟨none, 0, 0, elem, al⟩ ([] : List α) :=
        Vec.Holds.of_bare allowed.2.2 allowed.2.1 rfl rfl rfl
      have built : Born s.mem.blocks s.mem.blocks ⟨⟨none, 0, 0, elem, al⟩, some cmp, ctx⟩ [] (some cmp) ctx :=
        ⟨⟨elem, al, fresh, Evolves.refl _ _, rfl, rfl⟩, rfl, rfl, heaped_nil⟩
      have finish : Invariant others ⟨update s.objs out ⟨⟨none, 0, 0, elem, al⟩, some cmp, ctx⟩, s.mem⟩
          (update abs out ⟨0, some cmp, ctx⟩) := invariant.born allowed.1 built rfl rfl
      exact Or.inl ⟨_, ⟨rfl, rfl⟩, finish⟩
  | make out maker =>
      simp only [Call.run, ends_bind]
      apply (invariant.made maker allowed.1 allowed.2).mono
      rintro result mid ⟨sameObjs, ⟨queue, left, rfl, now⟩ | ⟨rfl, same⟩⟩
      · simp only [ends_bind, ends_store, ends_pure, sameObjs]
        exact Or.inl ⟨trivial, _, ⟨rfl, rfl⟩, now⟩
      · simp only [ends_pure]
        exact Or.inr ⟨trivial, sameObjs, same⟩
  | deinit self =>
      simp only [Call.run, ends_bind, ends_load, ends_within]
      apply (invariant.deinited self).mono
      rintro after mem ⟨rfl, now⟩
      simp only [ends_store, ends_pure]
      exact Or.inl ⟨trivial, _, ⟨rfl, rfl⟩, now⟩
  | copyAssign self other =>
      simp only [Call.run, ends_bind, ends_pure]
      apply (invariant.copyAssigned allowed.1 allowed.2.1 allowed.2.2).mono
      rintro st later (⟨rfl, now⟩ | ⟨rfl, unchanged⟩)
      · exact Or.inl ⟨rfl, _, ⟨rfl, rfl⟩, now⟩
      · exact Or.inr ⟨rfl, unchanged⟩
  | moveAssign self other =>
      simp only [Call.run, ends_bind, ends_pure]
      apply (invariant.moveAssigned allowed.1 allowed.2).mono
      exact fun _ later now => Or.inl ⟨trivial, _, ⟨rfl, rfl⟩, now⟩
  | swap self other =>
      simp only [Call.run, ends_bind, ends_pure]
      apply (invariant.swapped allowed.1 allowed.2.1 allowed.2.2).mono
      exact fun _ later now => Or.inl ⟨trivial, _, ⟨rfl, rfl⟩, now⟩
  | op self task =>
      simp only [Call.run, ends_bind, ends_load, ends_within]
      apply (invariant.operated task allowed.1 allowed.2).mono
      rintro result mem (⟨handed, after, left, elems, rfl, effect, now⟩ | ⟨rfl, same⟩)
      · simp only [ends_store, ends_pure]
        exact Or.inl ⟨trivial, _, ⟨elems, effect, rfl⟩, now⟩
      · simp only [ends_store, ends_pure]
        exact Or.inr ⟨trivial, update_eq_self self s.objs, same⟩

end Invariant

/-- In every run, each queue is the bag of the elems in its vec. -/
theorem Follows.invariant (follows : Follows s abs) : Invariant (fun _ => none) s abs := by
  induction follows with
  | start answers => exact Invariant.start answers
  | call before call world allowed ran effect ih =>
      rcases (ih.run call world allowed).of_eq ran with ⟨_, next, same, now⟩ | ⟨same, _⟩
      · exact same.unique effect ▸ now
      · cases same
  | refused before call world allowed ran fails ih =>
      rcases (ih.run call world allowed).of_eq ran with ⟨ok, _⟩ | ⟨_, sameObjs, sameBlocks⟩
      · exact absurd ok fails
      · exact ih.unchanged sameObjs sameBlocks

/-! ## In order -/

/-- How a queue stands for a bag: its vec is a heap of the elems of the bag under the comparator of the
bag, its top is one of the elems that no other is greater than, and to serve all of them yields them from
the greatest to the least. -/
structure Represents (heap : VecMem α) (queue : PQueue α C) (bag : Bag α C) : Prop where
  comparator : queue.cmp.isSome = true ∧ queue.cmp = bag.cmp ∧ queue.ctx = bag.ctx
  row : exists row : List α, Vec.Represents heap queue.vec row ∧ bag.elems = row ∧ queue.Heaped row
  top : bag.elems ≠ 0 -> Ends (top queue) heap fun val later => later = heap ∧ val ∈ bag.elems ∧
    forall order, queue.Serves order -> forall elem, elem ∈ bag.elems -> Cmp.le order elem val
  drain : forall world, Ends (drain queue.vec.len queue world) heap fun result _ =>
    (result.1 : Multiset α) = bag.elems ∧ result.2.1.vec.len = 0 ∧ forall order, queue.Serves order ->
      result.1.Pairwise fun first second => Cmp.le order second first

theorem Holds.represents {heap : VecMem α} {queue : PQueue α C} {row : List α} {bag : Bag α C}
    (holds : Holds heap.blocks queue row) (stands : Stands queue row bag) : Represents heap queue bag where
  comparator := ⟨holds.cmp, stands.cmp, stands.ctx⟩
  row := ⟨row, holds.vec.represents, stands.elems, holds.heaped⟩
  top some_ := by
    rw [stands.elems] at some_ ⊢
    cases row with
    | nil => exact absurd rfl some_
    | cons greatest rest =>
        have root : (greatest :: rest)[0]? = some greatest := rfl
        rw [ends_top holds root]
        exact ⟨rfl, List.mem_cons_self, fun order serves elem member => holds.heaped.top serves root member⟩
  drain world := by
    apply ends_drain holds holds.vec.len
    intro served after next later perm sorted tends
    refine ⟨?_, tends.vec.holds.len, sorted⟩
    rw [stands.elems]
    exact Multiset.coe_eq_coe.mpr perm

/-- In every run each queue holds its bag as a heap under the comparator that it has, and serves it in
order; every call that is allowed ends with its effect on the bags, or is refused and leaves all as it
was. -/
theorem Follows.serves_in_order (follows : Follows s abs) :
    (forall var, (s.objs var).vec.al.isSome = true -> Represents s.mem (s.objs var) (abs var)) ∧
    forall (call : Call α C) (world : C), call.Allowed s -> Ends (call.run world) s fun result later =>
      (result.1 = .ok ∧ exists next, call.Effect s abs result.2.1 next ∧ Follows later next) ∨
        (result = (.errNoMem, none, world) ∧ later.objs = s.objs ∧ later.mem.blocks = s.mem.blocks ∧
          Follows later abs) := by
  have invariant := follows.invariant
  constructor
  · intro var real
    rcases invariant with ⟨rows, kept, stands⟩
    exact (holds_of kept (stands var) real).represents (stands var)
  · intro call world allowed
    rcases invariant.run call world allowed with ⟨⟨st, handed, left⟩, later, ran, outcome⟩
    refine ⟨(st, handed, left), later, ran, ?_⟩
    rcases outcome with ⟨ok, next, effect, _⟩ | ⟨same, sameObjs, sameBlocks⟩
    · cases ok
      exact Or.inl ⟨rfl, next, effect, follows.call call world allowed ran effect⟩
    · have fails : st ≠ .ok := by
        cases same
        decide
      exact Or.inr ⟨same, sameObjs, sameBlocks, follows.refused call world allowed ran fails⟩

/-! ## A queue of numbers -/

/-- The state after a call, if it ended. -/
def Call.after (call : Call Nat Unit) (s : PQueueObjects Nat Unit) : PQueueObjects Nat Unit :=
  ((call.run () s).map Prod.snd).getD s

/-- The top of a queue of 1, 3 and 2 is replaced by itself. -/
def replaced : PQueueObjects Nat Unit :=
  (Call.op 0 (.replaceTop (.slot 0))).after
    ((Call.make 0 (.fromData [1, 3, 2] ⟨4, 4⟩ (fun _ => byValue) none (some 0))).after
      ⟨fun _ => inert, ⟨fun _ => none, some, 0⟩⟩)

theorem replaced_follows : exists abs, Follows replaced abs ∧ (abs 0).elems = 3 ::ₘ [1, 2] := by
  have made := (Follows.start some : Follows (⟨fun _ => inert, ⟨fun _ => none, some, 0⟩⟩ : PQueueObjects Nat Unit) _).call
    (.make 0 (.fromData [1, 3, 2] ⟨4, 4⟩ (fun _ => byValue) none (some 0))) () ⟨rfl, by decide, rfl⟩ rfl ⟨rfl, rfl⟩
  have settled := made.call (.op 0 (.replaceTop (.slot 0))) () ⟨rfl, (by decide : 0 < 3), (by decide : 0 < 3)⟩ rfl
    ⟨_, ⟨rfl, 3, 3, [1, 2], ⟨3, _, rfl, rfl, rfl⟩, ⟨3, _, rfl, rfl, rfl⟩, by decide, rfl⟩, rfl⟩
  exact ⟨_, settled, rfl⟩

theorem Follows.serves_in_order_replaced : exists bag : Bag Nat Unit, bag.elems = 3 ::ₘ [1, 2] ∧
    Represents replaced.mem (replaced.objs 0) bag := by
  rcases replaced_follows with ⟨abs, follows, elems⟩
  exact ⟨abs 0, elems, (Follows.serves_in_order follows).1 0 rfl⟩

end PQueue
end TerseDsa
