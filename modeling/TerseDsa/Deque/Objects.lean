import TerseDsa.Deque.Operations
import TerseDsa.Foundation.Assigning

namespace TerseDsa

open Foundation Run
open Function (update update_eq_self)

/-!
# Deques as objects

Deques are numbered variables over one memory, so that an operation may be
given one deque twice and write another through `out`.  `Follows` runs a
program of calls and, beside it, the same program on plain lists.
-/

variable {α C : Type}

/-- The deque variables of a program, and its memory. -/
abbrev DequeObjects (α : Type) := Objects Deque AlTag (List (Option α))

namespace DequeObjects

open Objects Deque

/-- The checks an operation on two deques starts with. -/
def assertPair (self other : Nat) : Run (DequeObjects α) (Deque × Deque) := do
  let a ← load self
  let b ← load other
  within (assertDeque a)
  within (assertDeque b)
  within (expectSame a b)
  return (a, b)

/-- `tda_deque_copy_assign`. -/
def copyAssign (α : Type) (self other : Nat) : Run (DequeObjects α) Status := do
  let (a, b) ← assertPair self other
  if self = other then
    return .ok
  let (st, after) ← within (copyOver α a b)
  store self after
  return st

/-- `tda_deque_move_assign`. -/
def moveAssign (α : Type) (self other : Nat) : Run (DequeObjects α) Unit := do
  let a ← load self
  let b ← load other
  within (assertDeque b)
  if a.al.isSome then
    within (assertDeque a)
    within (expectSame a b)
  if self = other then
    return ()
  store self (← within (deinit α a))
  store self b
  let empty ← within (init b.elem b.al)
  store other empty
  within (assertDeque b)
  within (assertDeque empty)

/-- `tda_deque_swap`. -/
def swap (α : Type) (self other : Nat) : Run (DequeObjects α) Unit := do
  let (a, b) ← assertPair self other
  if self = other then
    return ()
  store self b
  store other a
  within (assertDeque b)
  within (assertDeque a)

/-- `tda_deque_eq` and `tda_deque_eq_by`. -/
def eq (self other : Nat) (elemEq : α -> α -> Bool) : Run (DequeObjects α) Bool := do
  let (a, b) ← assertPair self other
  if self = other then
    return true
  within (eqImpl a b elemEq)

/-- How deques are checked, released and made anew. -/
def handling (α : Type) : Handling Deque AlTag (List (Option α)) where
  inert := Deque.inert
  real deque := deque.al.isSome
  alike a b := decide (a.elem = b.elem)
  check := assertDeque
  release := deinit α
  renew deque := init deque.elem deque.al

/-- Write a constructor's object to `out` if there is one. -/
def fill (out : Nat) (result : Status × Option Deque) : Run (DequeObjects α) Status := do
  match result with
  | (st, some deque) =>
      store out deque
      return st
  | (st, none) => return st

end DequeObjects

namespace Deque

open Objects DequeObjects

variable {s later : DequeObjects α} {abs : Nat -> List α} {zero : α}

/-! ## Calls -/

/-- The constructors that write to `out` only when they succeed. -/
inductive Maker (α : Type) where
  | initLen (len : Nat) (elem : Layout) (al : Al)
  | initCap (cap : Nat) (elem : Layout) (al : Al)
  | fromData (data : List α) (elem : Layout) (al : Al)
  | fromSpan (src : SpanView α) (al : Al)
  | copy (self : Nat)
  | copyWith (self : Nat) (al : Al)

namespace Maker

/-- Build the object. -/
def make (zero : α) : Maker α -> Run (DequeObjects α) (Status × Option Deque)
  | initLen len elem al => within (Deque.initLen zero len elem al)
  | initCap cap elem al => within (Deque.initCap α cap elem al)
  | fromData data elem al => within (Deque.fromData data elem al)
  | fromSpan src al => within (Deque.fromSpan src al)
  | copy self => do
      let deque ← load self
      within (assertDeque deque)
      within (Deque.copyWith α deque deque.al)
  | copyWith self al => do
      let deque ← load self
      within (Deque.copyWith α deque al)

/-- What the caller has to see to. -/
def Allowed (s : DequeObjects α) : Maker α -> Prop
  | initLen _ elem al | initCap _ elem al | fromData _ elem al =>
      elem.isType = true ∧ al.isSome = true
  | fromSpan src al => src.elem.isType = true ∧ al.isSome = true
  | copy self => (s.objs self).al.isSome = true
  | copyWith self al => (s.objs self).al.isSome = true ∧ al.isSome = true

/-- The elems of the object. -/
def contents (zero : α) (abs : Nat -> List α) : Maker α -> List α
  | initLen len _ _ => List.replicate len zero
  | initCap .. => []
  | fromData data _ _ => data
  | fromSpan src _ => src.elems
  | copy self | copyWith self _ => abs self

end Maker

/-- A call of a public operation of deques, with its arguments. -/
inductive Call (α C : Type) where
  | init (out : Nat) (elem : Layout) (al : Al)
  | make (out : Nat) (maker : Maker α)
  | deinit (self : Nat)
  | copyAssign (self other : Nat)
  | moveAssign (self other : Nat)
  | swap (self other : Nat)
  | op (self : Nat) (task : Op α C)

namespace Call

/-- Make the call; functions without a status succeed. -/
def run (zero : α) : Call α C -> Run (DequeObjects α) (Status × Handed α C)
  | init out elem al => do
      store out (← within (Deque.init elem al))
      return (.ok, .nothing)
  | make out maker => do
      let st ← fill out (← maker.make zero)
      return (st, .nothing)
  | deinit self => do
      store self (← within (Deque.deinit α (← load self)))
      return (.ok, .nothing)
  | copyAssign self other => do
      let st ← DequeObjects.copyAssign α self other
      return (st, .nothing)
  | moveAssign self other => do
      DequeObjects.moveAssign α self other
      return (.ok, .nothing)
  | swap self other => do
      DequeObjects.swap α self other
      return (.ok, .nothing)
  | op self task => do
      let (st, handed, after) ← within (task.run zero (← load self))
      store self after
      return (st, handed)

/-- Two deques of one elem layout. -/
def Alike (s : DequeObjects α) (self other : Nat) : Prop :=
  (s.objs self).elem = (s.objs other).elem

/-- What the caller has to see to: `self` and `other` are initialised and of
one layout, and `out` is a variable that owns no block, since it is overwritten. -/
def Allowed (s : DequeObjects α) : Call α C -> Prop
  | init out elem al => (s.objs out).data = none ∧ elem.isType = true ∧ al.isSome = true
  | make out maker => (s.objs out).data = none ∧ maker.Allowed s
  | deinit _ => True
  | copyAssign self other | swap self other =>
      (s.objs self).al.isSome = true ∧ (s.objs other).al.isSome = true ∧ Alike s self other
  | moveAssign self other =>
      (s.objs other).al.isSome = true ∧ ((s.objs self).al.isSome = true -> Alike s self other)
  | op self task => (s.objs self).al.isSome = true ∧ task.Allowed (s.objs self)

/-- The same call on plain lists. -/
def apply (zero : α) (abs : Nat -> List α) : Call α C -> Nat -> List α
  | init out _ _ => update abs out []
  | make out maker => update abs out (maker.contents zero abs)
  | deinit self => update abs self []
  | copyAssign self other => update abs self (abs other)
  | moveAssign self other =>
      if self = other then abs
      else update (update abs self (abs other)) other []
  | swap self other => fun var => abs (Equiv.swap self other var)
  | op self task => update abs self (task.apply zero (abs self))

/-- What the call hands out, on plain lists. -/
def answer (abs : Nat -> List α) : Call α C -> Handed α C
  | op self task => task.answer (abs self)
  | _ => .nothing

end Call

/-- A run of a program, and of the same program on lists: both start with
nothing, over an arbitrary script of the allocator, and a call that is refused
is none on the lists. -/
inductive Follows (C : Type) (zero : α) : DequeObjects α -> (Nat -> List α) -> Prop where
  | start (answers : Nat -> Option Addr) :
      Follows C zero ⟨fun _ => inert, ⟨fun _ => none, answers, 0⟩⟩ fun _ => []
  | call {s later : DequeObjects α} {abs : Nat -> List α} {st : Status} {handed : Handed α C}
      (before : Follows C zero s abs) (call : Call α C) (allowed : call.Allowed s)
      (ran : call.run zero s = some ((st, handed), later)) :
      Follows C zero later (if st = .ok then call.apply zero abs else abs)

/-! ## The invariant -/

/-- A deque over a ring, or an inert one. -/
def Kept (blocks : Blocks AlTag (List (Option α))) (deque : Deque) (elems : List α) : Prop :=
  (deque = inert ∧ elems = []) ∨ Holds blocks deque elems

/-- Deques own their block. -/
@[reducible] def kind : Kind Deque (List α) AlTag (List (Option α)) where
  owned deque _ := deque.data.toList
  Holds := Kept
  live := by
    intro blocks deque elems addr kept mine
    rcases kept with ⟨rfl, _⟩ | holds
    · exact absurd mine List.not_mem_nil
    · have inHeap : Holds (⟨blocks, fun _ => none, 0⟩ : DequeMem α).blocks deque elems := holds
      exact inHeap.live mine
  congr := by
    intro blocks other deque elems kept agree
    rcases kept with idle | holds
    · exact Or.inl idle
    · have inHeap : Holds (⟨blocks, fun _ => none, 0⟩ : DequeMem α).blocks deque elems := holds
      exact Or.inr (inHeap.congr agree)

theorem Kept.holds {blocks : Blocks AlTag (List (Option α))} {deque : Deque} {elems : List α}
    (kept : Kept blocks deque elems) (real : deque.al.isSome = true) : Holds blocks deque elems := by
  rcases kept with ⟨rfl, _⟩ | holds
  · cases real
  · exact holds

/-! ### Deques are assigned as any owning object is -/

theorem within_expectSame (a b : Deque) : within (expectSame a b) =
    (require ((handling α).alike a b = true) : Run (DequeObjects α) Unit) :=
  (within_require _).trans (require_decide _).symm

theorem copyAssign_eq (self other : Nat) :
    DequeObjects.copyAssign α self other = (handling α).copyAssign (copyOver α) .ok self other := by
  unfold DequeObjects.copyAssign Handling.copyAssign assertPair Handling.checkPair
  simp only [within_expectSame]
  rfl

theorem moveAssign_eq (self other : Nat) :
    DequeObjects.moveAssign α self other = (handling α).moveAssign self other := by
  unfold DequeObjects.moveAssign Handling.moveAssign
  simp only [within_expectSame]
  rfl

theorem swap_eq (self other : Nat) : DequeObjects.swap α self other = (handling α).swap self other := by
  unfold DequeObjects.swap Handling.swap assertPair Handling.checkPair
  simp only [within_expectSame]
  rfl

/-- The checks pass on deques that are held, and releasing one gives its block back. -/
theorem sound : (handling α).Sound (kind (α := α)) [] where
  idle := ⟨fun _ => Or.inl ⟨rfl, rfl⟩, rfl⟩
  idle_of := by
    intro blocks deque elems kept unreal
    rcases kept with idle | holds
    · exact idle
    · rcases holds.ring with ⟨_, ring, _⟩
      exact absurd ring.real (ne_true_of_eq_false unreal)
  check kept real post := ends_assertDeque (kept.holds real).asserts
  release_idle _ _ := ends_deinit_inert
  release kept real := ends_deinit (kept.holds real) fun _ gone => ⟨rfl, gone⟩
  renew := by
    intro blocks deque elems kept real
    rcases (kept.holds real).ring with ⟨_, ring, _⟩
    exact ⟨⟨none, 0, 0, 0, deque.elem, deque.al⟩,
      ⟨fun _ => Or.inr (Holds.of_bare real ring.elem rfl rfl rfl rfl), rfl⟩, real,
      fun _ _ => ends_init ring.elem real⟩

/-- The lists are the contents of the deques, and the live blocks are theirs or the others'. -/
abbrev Invariant (others : Blocks AlTag (List (Option α))) (s : DequeObjects α) (abs : Nat -> List α) : Prop :=
  Objects.Among kind others s abs

namespace Invariant

variable {others : Blocks AlTag (List (Option α))} {obj out : Nat} {elems : List α} {mem : DequeMem α}

theorem holds (invariant : Invariant others s abs) (real : (s.objs obj).al.isSome = true) :
    Holds s.mem.blocks (s.objs obj) (abs obj) :=
  (invariant.held obj).holds real

theorem tended {after : Deque} (invariant : Invariant others s abs)
    (tends : Tends s.mem.blocks mem.blocks (s.objs obj) after elems) :
    Invariant others ⟨update s.objs obj after, mem⟩ (update abs obj elems) :=
  Objects.Among.act invariant tends.evolves (Or.inr tends.holds)

/-- A variable that owned nothing is overwritten by a deque that was built. -/
theorem born {deque : Deque} {elem : Layout} {al : Al} (invariant : Invariant others s abs)
    (bare : (s.objs out).data = none) (born : Born s.mem.blocks mem.blocks deque elems elem al) :
    Invariant others ⟨update s.objs out deque, mem⟩ (update abs out elems) := by
  apply Objects.Among.act invariant _ (Or.inr born.holds)
  change Evolves _ _ (s.objs out).data.toList _
  rw [bare]
  exact born.evolves

theorem ends_assertPair (invariant : Invariant others s abs) {self other : Nat}
    (realSelf : (s.objs self).al.isSome = true) (realOther : (s.objs other).al.isSome = true)
    (alike : Call.Alike s self other) {post : Deque × Deque -> DequeObjects α -> Prop} :
    Ends (assertPair self other) s post <-> post (s.objs self, s.objs other) s := by
  have same : (s.objs self).elem = (s.objs other).elem := alike
  simp only [assertPair, ends_bind, ends_load, ends_within,
    ends_assertDeque (invariant.holds realSelf).asserts,
    ends_assertDeque (invariant.holds realOther).asserts, expectSame, ends_require, same,
    true_and, ends_pure]

/-! ### The calls -/

/-- A constructor builds a deque of the elems it should have, or leaves no trace. -/
theorem made (invariant : Invariant others s abs) (maker : Maker α) (allowed : maker.Allowed s) :
    Ends (maker.make zero) s (fun result later => later.objs = s.objs ∧
      ((exists deque, result = (.ok, some deque) ∧
          exists elem al, Born s.mem.blocks later.mem.blocks deque (maker.contents zero abs) elem al) ∨
        (result = (.errNoMem, none) ∧ later.mem.blocks = s.mem.blocks))) := by
  cases maker with
  | initLen len elem al =>
      exact ends_within_built fun refused done => ends_initLen allowed.1 allowed.2 refused
        fun deque later born => done deque later ⟨elem, al, born⟩
  | initCap cap elem al =>
      exact ends_within_built fun refused done => ends_initCap allowed.1 allowed.2 refused
        fun deque later born => done deque later ⟨elem, al, born⟩
  | fromData data elem al =>
      exact ends_within_built fun refused done => ends_fromData allowed.1 allowed.2 refused
        fun deque later born => done deque later ⟨elem, al, born⟩
  | fromSpan src al =>
      exact ends_within_built fun refused done => ends_fromData allowed.1 allowed.2 refused
        fun deque later born => done deque later ⟨src.elem, al, born⟩
  | copy self =>
      have holds := invariant.holds allowed
      simp only [Maker.make, ends_bind, ends_load]
      rw [ends_within, ends_assertDeque holds.asserts]
      exact ends_within_built fun refused done => ends_copyWith holds allowed refused
        fun deque later born => done deque later ⟨_, _, born⟩
  | copyWith self al =>
      have holds := invariant.holds allowed.1
      simp only [Maker.make, ends_bind, ends_load]
      exact ends_within_built fun refused done => ends_copyWith holds allowed.2 refused
        fun deque later born => done deque later ⟨_, al, born⟩

theorem copyAssigned (invariant : Invariant others s abs) {self other : Nat}
    (realSelf : (s.objs self).al.isSome = true) (realOther : (s.objs other).al.isSome = true)
    (alike : Call.Alike s self other) :
    Ends (DequeObjects.copyAssign α self other) s (fun st later =>
      (st = .ok ∧ Invariant others later (update abs self (abs other))) ∨
        (st = .errNoMem ∧ later.objs = s.objs ∧ later.mem.blocks = s.mem.blocks)) := by
  rw [copyAssign_eq]
  apply Objects.Among.copied invariant sound realSelf realOther (decide_eq_true alike)
  intro different
  apply ends_copyOver (invariant.holds realSelf) (invariant.holds realOther) alike
    (Objects.Among.apart invariant (Ne.symm different))
  · exact fun later unchanged => Or.inr ⟨rfl, unchanged⟩
  · exact fun after later tends => Or.inl ⟨rfl, Or.inr tends.holds, tends.evolves⟩

/-- Every call ends, whatever the allocator answers, hands out what it does on
lists, and leaves the contents that it leaves there; a refused call leaves
those there were. -/
theorem run (invariant : Invariant others s abs) (call : Call α C) (allowed : call.Allowed s) :
    Ends (call.run zero) s (fun result later =>
      (result = (.ok, call.answer abs) ∧ Invariant others later (call.apply zero abs)) ∨
        (result.1 = .errNoMem ∧ later.objs = s.objs ∧ later.mem.blocks = s.mem.blocks)) := by
  cases call with
  | init out elem al =>
      simp only [Call.run, ends_bind, ends_within, ends_init allowed.2.1 allowed.2.2, ends_store,
        ends_pure]
      apply Or.inl
      exact ⟨rfl, invariant.born allowed.1 ⟨Holds.of_bare allowed.2.2 allowed.2.1 rfl rfl rfl rfl,
        Evolves.refl _ _, rfl, rfl⟩⟩
  | make out maker =>
      simp only [Call.run, ends_bind]
      apply (invariant.made maker allowed.2).mono
      intro result mid built
      rcases built with ⟨sameObjs, ⟨deque, rfl, elem, al, born⟩ | ⟨rfl, same⟩⟩
      · simp only [fill, ends_bind, ends_store, ends_pure, sameObjs]
        exact Or.inl ⟨rfl, invariant.born allowed.1 born⟩
      · simp only [fill, ends_pure]
        exact Or.inr ⟨trivial, sameObjs, same⟩
  | deinit self =>
      simp only [Call.run, ends_bind, ends_load, ends_within]
      refine (Objects.Among.released invariant sound self).mono ?_
      rintro after later ⟨rfl, cleared⟩
      simp only [ends_store, ends_pure]
      exact Or.inl ⟨rfl, cleared⟩
  | copyAssign self other =>
      simp only [Call.run, ends_bind, ends_pure]
      apply (invariant.copyAssigned allowed.1 allowed.2.1 allowed.2.2).mono
      rintro st later (⟨rfl, now⟩ | ⟨rfl, unchanged⟩)
      · exact Or.inl ⟨rfl, now⟩
      · exact Or.inr ⟨rfl, unchanged⟩
  | moveAssign self other =>
      simp only [Call.run, ends_bind, ends_pure, moveAssign_eq]
      apply (Objects.Among.ends_moveAssign invariant sound allowed.1
        fun real => decide_eq_true (allowed.2 real)).mono
      exact fun _ later now => Or.inl ⟨rfl, now⟩
  | swap self other =>
      simp only [Call.run, ends_bind, ends_pure, swap_eq]
      apply (Objects.Among.ends_swap invariant sound allowed.1 allowed.2.1 (decide_eq_true allowed.2.2)).mono
      exact fun _ later now => Or.inl ⟨rfl, now⟩
  | op self task =>
      simp only [Call.run, ends_bind, ends_load, ends_within]
      apply (task.ends_run (invariant.holds allowed.1) allowed.2).mono
      rintro result mem (⟨after, rfl, tends⟩ | ⟨rfl, same⟩)
      · simp only [ends_store, ends_pure]
        exact Or.inl ⟨rfl, invariant.tended tends⟩
      · simp only [ends_store, ends_pure]
        exact Or.inr ⟨trivial, update_eq_self self s.objs, same⟩

end Invariant

/-- In every run, the lists are the contents of the deques. -/
theorem Follows.invariant (follows : Follows C zero s abs) : Invariant (fun _ => none) s abs := by
  induction follows with
  | start answers => exact Objects.Among.start inert (Or.inl ⟨rfl, rfl⟩) rfl answers
  | call before call allowed ran ih =>
      rcases (ih.run call allowed).of_eq ran with ⟨same, now⟩ | ⟨refused, sameObjs, sameBlocks⟩
      · cases same
        exact now
      · cases refused
        exact ih.unchanged sameObjs sameBlocks

end Deque

/-!
## Deques refine sequences

Whatever program of deque operations is run, each deque stands for the list
that the same program computes on lists, and shows that list in every way it
can be looked at.
-/

namespace Deque

open Objects

variable {s : DequeObjects α} {abs : Nat -> List α} {zero : α}

/-- How a deque stands for a list of elems. -/
structure Represents (heap : DequeMem α) (deque : Deque) (elems : List α) : Prop where
  len : deque.len = elems.length
  load : deque.len ≤ deque.cap
  start : 0 < deque.cap -> deque.head < deque.cap
  bare : deque.cap = 0 -> deque.head = 0
  elem : forall idx, idx < deque.len -> Ends (elemAt deque idx) heap fun val later =>
    val = elems[idx]? ∧ later = heap
  spans : Ends (toSpans deque) heap fun spans later =>
    later = heap ∧ Spans heap deque elems spans.1 spans.2
  copied : Ends (copyToSpan deque deque.len deque.elem) heap fun vals later =>
    vals = elems.map some ∧ later = heap

theorem Holds.represents {heap : DequeMem α} {deque : Deque} {elems : List α}
    (holds : Holds heap.blocks deque elems) : Represents heap deque elems := by
  rcases holds.ring with ⟨view, ring, _⟩
  constructor
  · exact holds.len
  · exact holds.load
  · intro some_
    rcases ring.start with ⟨none_, _⟩ | inside
    · exact absurd none_ (Nat.ne_of_gt some_)
    · exact inside
  · intro none_
    rcases ring.start with ⟨_, atZero⟩ | inside
    · exact atZero
    · exact absurd inside (none_ ▸ Nat.not_lt_zero _)
  · intro idx inside
    have within : idx < elems.length := holds.len ▸ inside
    have found : elems[idx]? = some elems[idx] := List.getElem?_eq_getElem within
    rw [ends_elem holds found]
    exact ⟨found.symm, rfl⟩
  · apply ends_toSpans holds
    exact fun front back spans => ⟨rfl, spans⟩
  · rw [holds.len, ends_copyToSpan holds]
    exact ⟨rfl, rfl⟩

theorem Invariant.compared {others : Blocks AlTag (List (Option α))} (invariant : Invariant others s abs) {self other : Nat} [DecidableEq α]
    (realSelf : (s.objs self).al.isSome = true) (realOther : (s.objs other).al.isSome = true)
    (alike : Call.Alike s self other) :
    Ends (DequeObjects.eq self other fun a b => decide (a = b)) s (fun answer later =>
      (answer = true <-> abs self = abs other) ∧ later = s) := by
  simp only [DequeObjects.eq, ends_bind, invariant.ends_assertPair realSelf realOther alike]
  by_cases same : self = other
  · subst same
    simp only [if_true, ends_pure, and_self]
  · simp only [if_neg same, ends_within]
    apply ends_eqImpl (invariant.holds realSelf) (invariant.holds realOther)
    intro answer equal
    simp only [decide_eq_true_eq, List.forall₂_eq_eq_eq] at equal
    exact ⟨equal, rfl⟩

/-- In every run each deque stands for the list that the same run computes on
lists, deques are equal when their lists are, and every call that is allowed
ends, and hands out what it does on lists. -/
theorem Follows.lockstep [DecidableEq α] (follows : Follows C zero s abs) :
    (forall var, (s.objs var).al.isSome = true -> Represents s.mem (s.objs var) (abs var)) ∧
    (forall self other, (s.objs self).al.isSome = true -> (s.objs other).al.isSome = true ->
      Call.Alike s self other ->
      Ends (DequeObjects.eq self other fun a b => decide (a = b)) s fun answer later =>
        (answer = true <-> abs self = abs other) ∧ later = s) ∧
    forall call : Call α C, call.Allowed s -> Ends (call.run zero) s fun result later =>
      (result.1 = .ok -> result.2 = call.answer abs) ∧
        Follows C zero later (if result.1 = .ok then call.apply zero abs else abs) := by
  have invariant := follows.invariant
  refine ⟨?_, ?_, ?_⟩
  · exact fun var real => (invariant.holds real).represents
  · exact fun self other realSelf realOther alike => invariant.compared realSelf realOther alike
  · intro call allowed
    rcases invariant.run call allowed with ⟨⟨st, handed⟩, later, ran, outcome⟩
    refine ⟨(st, handed), later, ran, ?_, follows.call call allowed ran⟩
    intro succeeded
    rcases outcome with ⟨same, _⟩ | ⟨refused, _⟩
    · exact congrArg Prod.snd same
    · exact absurd (refused.symm.trans succeeded) nofun

/-! ## A ring that wraps -/

/-- The state after a call, if it ended. -/
def Call.after (call : Call Nat Unit) (s : DequeObjects Nat) : DequeObjects Nat :=
  ((call.run 0 s).map Prod.snd).getD s

/-- A deque of 1, 2, 3 loses its first elem and gets 4 behind the last, in a
block of three slots. -/
def wrapped : DequeObjects Nat :=
  (Call.op 0 (.pushBack (.outside 4))).after ((Call.op 0 .popFront).after
    ((Call.make 0 (.fromData [1, 2, 3] ⟨4, 4⟩ (some 0))).after
      ⟨fun _ => inert, ⟨fun _ => none, some, 0⟩⟩))

theorem wrapped_follows : exists abs, Follows Unit 0 wrapped abs ∧ abs 0 = [2, 3, 4] := by
  have made := (Follows.start some : Follows Unit (0 : Nat) _ _).call
    (.make 0 (.fromData [1, 2, 3] ⟨4, 4⟩ (some 0))) ⟨rfl, by decide, rfl⟩ rfl
  have popped := made.call (.op 0 .popFront) ⟨rfl, (by decide : 0 < 3)⟩ rfl
  have pushed := popped.call (.op 0 (.pushBack (.outside 4))) ⟨rfl, trivial⟩ rfl
  exact ⟨_, pushed, rfl⟩

theorem Follows.lockstep_wrapped : Represents wrapped.mem (wrapped.objs 0) [2, 3, 4] := by
  rcases wrapped_follows with ⟨abs, follows, contents⟩
  rw [← contents]
  exact (Follows.lockstep follows).1 0 rfl

end Deque
end TerseDsa
