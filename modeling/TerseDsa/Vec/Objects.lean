import TerseDsa.Foundation.Assigning
import TerseDsa.Vec.Operations

namespace TerseDsa

open Foundation Run
open Function (update update_comm update_idem update_eq_self)

/-!
# Vecs as objects

Vecs are numbered variables over one memory, so that an operation may be given
one vec twice and write another through `out`.  `Follows` runs a program of
calls and, beside it, the same program on plain lists.  Between two calls
anyone may write over the spare cells of a vec, or unset them.
-/

/-- The vec variables of a program, and its memory. -/
abbrev VecObjects (α : Type) := Objects Vec AlTag (List (Option α))

namespace VecObjects

open Objects Vec

/-- How vecs are checked, released and made anew. -/
def handling (α : Type) : Handling Vec AlTag (List (Option α)) where
  inert := Vec.inert
  real vec := vec.al.isSome
  alike a b := decide (a.elem = b.elem)
  check := assertVec
  release := deinit α
  renew vec := init vec.elem vec.al

/-- `tda_vec_copy_assign`. -/
def copyAssign (α : Type) (self other : Nat) : Run (VecObjects α) Status :=
  (handling α).copyAssign (copyOver α) .ok self other

/-- `tda_vec_move_assign`. -/
def moveAssign (α : Type) (self other : Nat) : Run (VecObjects α) Unit := (handling α).moveAssign self other

/-- `tda_vec_swap`. -/
def swap (α : Type) (self other : Nat) : Run (VecObjects α) Unit := (handling α).swap self other

/-- `tda_vec_into_raw`, and `tda_vec_init_raw` on the allocator that the vec had. -/
def rewrap (α : Type) (out self : Nat) : Run (VecObjects α) Unit := do
  let vec ← load self
  let (elems, cap, after) ← within (intoRaw vec)
  store self after
  store out (← within (initRaw elems cap vec.al))

/-- Write a constructor's object to `out` if there is one. -/
def fill {α : Type} (out : Nat) (result : Status × Option Vec) : Run (VecObjects α) Status := do
  match result with
  | (st, some vec) =>
      store out vec
      return st
  | (st, none) => return st

end VecObjects

namespace Vec

open Objects VecObjects

variable {α C : Type} {s later : VecObjects α} {abs : Nat -> List α} {zero : α}

/-! ## Calls -/

/-- The constructors that write to `out` only when they succeed. -/
inductive Maker (α : Type) where
  | initLen (len : Nat) (elem : Layout) (al : Al)
  | initCap (cap : Nat) (elem : Layout) (al : Al)
  | fromData (data : List α) (elem : Layout) (al : Al)
  | fromSpan (src : SpanView α) (al : Al)
  | copy (self : Nat)
  | copyWith (self : Nat) (al : Al)

namespace Maker

/-- Build the object. -/
def make (zero : α) : Maker α -> Run (VecObjects α) (Status × Option Vec)
  | initLen len elem al => within (Vec.initLen zero len elem al)
  | initCap cap elem al => within (Vec.initCap α cap elem al)
  | fromData data elem al => within (Vec.fromData data elem al)
  | fromSpan src al => within (Vec.fromSpan src al)
  | copy self => do
      let vec ← load self
      within (assertVec vec)
      within (Vec.copyWith α vec vec.al)
  | copyWith self al => do
      let vec ← load self
      within (Vec.copyWith α vec al)

/-- What the caller has to see to. -/
def Allowed (s : VecObjects α) : Maker α -> Prop
  | initLen _ elem al | initCap _ elem al | fromData _ elem al => elem.isType = true ∧ al.isSome = true
  | fromSpan src al => src.elem.isType = true ∧ al.isSome = true
  | copy self => (s.objs self).al.isSome = true
  | copyWith self al => (s.objs self).al.isSome = true ∧ al.isSome = true

/-- The elems of the object. -/
def contents (zero : α) (abs : Nat -> List α) : Maker α -> List α
  | initLen len _ _ => List.replicate len zero
  | initCap .. => []
  | fromData data _ _ => data
  | fromSpan src _ => src.elems
  | copy self | copyWith self _ => abs self

end Maker

/-- A call of a public operation of vecs, with its arguments. -/
inductive Call (α C : Type) where
  | init (out : Nat) (elem : Layout) (al : Al)
  | make (out : Nat) (maker : Maker α)
  | deinit (self : Nat)
  | rewrap (out self : Nat)
  | copyAssign (self other : Nat)
  | moveAssign (self other : Nat)
  | swap (self other : Nat)
  | op (self : Nat) (task : Op α C)

namespace Call

/-- Make the call; functions without a status succeed. -/
def run (zero : α) : Call α C -> Run (VecObjects α) (Status × Handed α C)
  | init out elem al => do
      store out (← within (Vec.init elem al))
      return (.ok, .nothing)
  | make out maker => do
      let st ← fill out (← maker.make zero)
      return (st, .nothing)
  | deinit self => do
      store self (← within (Vec.deinit α (← load self)))
      return (.ok, .nothing)
  | rewrap out self => do
      VecObjects.rewrap α out self
      return (.ok, .nothing)
  | copyAssign self other => do
      let st ← VecObjects.copyAssign α self other
      return (st, .nothing)
  | moveAssign self other => do
      VecObjects.moveAssign α self other
      return (.ok, .nothing)
  | swap self other => do
      VecObjects.swap α self other
      return (.ok, .nothing)
  | op self task => do
      let (st, handed, after) ← within (task.run zero (← load self))
      store self after
      return (st, handed)

/-- Two vecs of one elem layout. -/
def Alike (s : VecObjects α) (self other : Nat) : Prop := (s.objs self).elem = (s.objs other).elem

/-- What the caller has to see to: `self` and `other` are initialised and of one layout, and
`out` is a variable that owns no block, since it is overwritten. -/
def Allowed (s : VecObjects α) : Call α C -> Prop
  | init out elem al => (s.objs out).data = none ∧ elem.isType = true ∧ al.isSome = true
  | make out maker => (s.objs out).data = none ∧ maker.Allowed s
  | deinit _ => True
  | rewrap out self => (s.objs self).al.isSome = true ∧ (out = self ∨ (s.objs out).data = none)
  | copyAssign self other | swap self other =>
      (s.objs self).al.isSome = true ∧ (s.objs other).al.isSome = true ∧ Alike s self other
  | moveAssign self other =>
      (s.objs other).al.isSome = true ∧ ((s.objs self).al.isSome = true -> Alike s self other)
  | op self task => (s.objs self).al.isSome = true ∧ task.Allowed (s.objs self)

/-- The same call on plain lists. -/
def apply (zero : α) (abs : Nat -> List α) : Call α C -> Nat -> List α
  | init out _ _ => update abs out []
  | make out maker => update abs out (maker.contents zero abs)
  | deinit self => update abs self []
  | rewrap out self => update (update abs self []) out (abs self)
  | copyAssign self other => update abs self (abs other)
  | moveAssign self other =>
      if self = other then abs else update (update abs self (abs other)) other []
  | swap self other => fun var => abs (Equiv.swap self other var)
  | op self task => update abs self (task.apply zero (abs self))

/-- What the call hands out, on plain lists. -/
def answer (abs : Nat -> List α) : Call α C -> Handed α C
  | op self task => task.answer (abs self)
  | _ => .nothing

end Call

/-- Only cells behind the elems of the vecs were written over or unset. -/
structure Scribbles (s : VecObjects α) (blocks : Blocks AlTag (List (Option α))) : Prop where
  free : forall addr, s.mem.blocks addr = none -> blocks addr = none
  elems : forall addr tag cells, s.mem.blocks addr = some ⟨tag, cells⟩ ->
    exists others, blocks addr = some ⟨tag, others⟩ ∧ others.length = cells.length ∧
      forall var, (s.objs var).data = some addr -> others.take (s.objs var).len = cells.take (s.objs var).len

/-- A run of a program, and of the same program on lists: both start with nothing, over an
arbitrary script of the allocator; a call that is refused is none on the lists, and neither
is what happens to spare cells. -/
inductive Follows (C : Type) (zero : α) : VecObjects α -> (Nat -> List α) -> Prop where
  | start (answers : Nat -> Option Addr) : Follows C zero ⟨fun _ => inert, ⟨fun _ => none, answers, 0⟩⟩ fun _ => []
  | call {s later : VecObjects α} {abs : Nat -> List α} {st : Status} {handed : Handed α C}
      (before : Follows C zero s abs) (call : Call α C) (allowed : call.Allowed s)
      (ran : call.run zero s = some ((st, handed), later)) :
      Follows C zero later (if st = .ok then call.apply zero abs else abs)
  | scribble {s : VecObjects α} {abs : Nat -> List α} (before : Follows C zero s abs)
      (blocks : Blocks AlTag (List (Option α))) (scribbles : Scribbles s blocks) :
      Follows C zero { s with mem := { s.mem with blocks := blocks } } abs

/-! ## The invariant -/

/-- A vec over a block, or an inert one. -/
def Kept (blocks : Blocks AlTag (List (Option α))) (vec : Vec) (elems : List α) : Prop :=
  (vec = inert ∧ elems = []) ∨ Holds blocks vec elems

/-- Vecs own their block. -/
@[reducible] def kind : Kind Vec (List α) AlTag (List (Option α)) where
  owned vec _ := vec.data.toList
  Holds := Kept
  live := by
    intro blocks vec elems addr kept mine
    rcases kept with ⟨rfl, _⟩ | holds
    · exact absurd mine List.not_mem_nil
    · exact holds.live mine
  congr := by
    intro blocks other vec elems kept agree
    exact kept.imp_right fun holds => holds.congr agree

theorem Kept.holds {blocks : Blocks AlTag (List (Option α))} {vec : Vec} {elems : List α}
    (kept : Kept blocks vec elems) (real : vec.al.isSome = true) : Holds blocks vec elems := by
  rcases kept with ⟨rfl, _⟩ | holds
  · cases real
  · exact holds

theorem sound : (handling α).Sound (kind (α := α)) [] where
  idle := ⟨fun _ => Or.inl ⟨rfl, rfl⟩, rfl⟩
  idle_of := by
    intro blocks vec elems kept unreal
    rcases kept with idle | holds
    · exact idle
    · exact absurd holds.real (ne_true_of_eq_false unreal)
  check kept real post := ends_assertVec (kept.holds real).asserts
  release_idle _ _ := ends_deinit_inert
  release kept real := ends_deinit (kept.holds real) fun _ gone => ⟨rfl, gone⟩
  renew := by
    intro blocks vec elems kept real
    have isType : vec.elem.isType = true := (kept.holds real).asserts.1
    exact ⟨⟨none, 0, 0, vec.elem, vec.al⟩, ⟨fun _ => Or.inr (Holds.of_bare real isType rfl rfl rfl), rfl⟩, real,
      fun _ _ => ends_init isType real⟩

/-- The lists are the contents of the vecs, and the live blocks are theirs or the others'. -/
abbrev Invariant (others : Blocks AlTag (List (Option α))) (s : VecObjects α) (abs : Nat -> List α) : Prop :=
  Objects.Among kind others s abs

namespace Invariant

variable {others : Blocks AlTag (List (Option α))} {obj out self other : Nat} {elems : List α} {mem : VecMem α}

theorem holds (invariant : Invariant others s abs) (real : (s.objs obj).al.isSome = true) :
    Holds s.mem.blocks (s.objs obj) (abs obj) :=
  (invariant.held obj).holds real

theorem tended {after : Vec} (invariant : Invariant others s abs)
    (tends : Tends s.mem.blocks mem.blocks (s.objs obj) after elems) :
    Invariant others ⟨update s.objs obj after, mem⟩ (update abs obj elems) :=
  Objects.Among.act invariant tends.evolves (Or.inr tends.holds)

/-- A variable that owned nothing is overwritten by a vec that was built. -/
theorem born {vec : Vec} {elem : Layout} {al : Al} (invariant : Invariant others s abs) (bare : (s.objs out).data = none)
    (born : Born s.mem.blocks mem.blocks vec elems elem al) :
    Invariant others ⟨update s.objs out vec, mem⟩ (update abs out elems) := by
  apply Objects.Among.act invariant _ (Or.inr born.holds)
  change Evolves _ _ (s.objs out).data.toList _
  rw [bare]
  exact born.evolves

/-- What is behind the elems does not matter. -/
theorem scribbled {blocks : Blocks AlTag (List (Option α))} (invariant : Objects.Invariant kind s abs)
    (scribbles : Scribbles s blocks) : Objects.Invariant kind { s with mem := { s.mem with blocks := blocks } } abs := by
  constructor
  · intro var
    rcases invariant.held var with idle | holds
    · exact Or.inl idle
    · apply Or.inr
      have len := holds.len
      rcases holds.cells with ⟨spare, held⟩
      rcases held.owns with ⟨none_, empty⟩ | ⟨addr, at_, some_, block⟩
      · exact ⟨⟨spare, held.real, held.isType, held.fits, held.length, Or.inl ⟨none_, empty⟩⟩, len⟩
      · rcases scribbles.elems addr _ _ block with ⟨others, there, length, same⟩
        have front := same var at_
        rw [len, List.take_left' (List.length_map _)] at front
        refine ⟨⟨others.drop (abs var).length, held.real, held.isType, held.fits, ?_, ?_⟩, len⟩
        · rw [← front, List.take_append_drop, length, held.length]
        · rw [← front, List.take_append_drop]
          exact Or.inr ⟨addr, at_, some_, there⟩
  · have alive : forall addr, blocks addr ≠ none <-> s.mem.blocks addr ≠ none := by
      intro addr
      cases here : s.mem.blocks addr with
      | none => rw [scribbles.free addr here]
      | some block =>
          rcases scribbles.elems addr block.tag block.cell here with ⟨others, there, _⟩
          rw [there]
          simp only [ne_eq, reduceCtorEq, not_false_eq_true]
    exact ⟨fun var addr mine => (alive addr).mpr (invariant.division.live var addr mine),
      fun addr live => invariant.division.covered addr ((alive addr).mp live), invariant.division.apart⟩

/-! ### The calls -/

/-- A constructor builds a vec of the elems it should have, or leaves no trace. -/
theorem made (invariant : Invariant others s abs) (maker : Maker α) (allowed : maker.Allowed s) :
    Ends (maker.make zero) s (fun result later => later.objs = s.objs ∧
      ((exists vec, result = (.ok, some vec) ∧
          exists elem al, Born s.mem.blocks later.mem.blocks vec (maker.contents zero abs) elem al) ∨
        (result = (.errNoMem, none) ∧ later.mem.blocks = s.mem.blocks))) := by
  cases maker with
  | initLen len elem al =>
      exact ends_within_built fun refused done => ends_initLen allowed.1 allowed.2 refused
        fun vec later born => done vec later ⟨elem, al, born⟩
  | initCap cap elem al =>
      exact ends_within_built fun refused done => ends_initCap allowed.1 allowed.2 refused
        fun vec later born => done vec later ⟨elem, al, born⟩
  | fromData data elem al =>
      exact ends_within_built fun refused done => ends_fromData allowed.1 allowed.2 refused
        fun vec later born => done vec later ⟨elem, al, born⟩
  | fromSpan src al =>
      exact ends_within_built fun refused done => ends_fromData allowed.1 allowed.2 refused
        fun vec later born => done vec later ⟨src.elem, al, born⟩
  | copy self =>
      have holds := invariant.holds allowed
      simp only [Maker.make, ends_bind, ends_load]
      rw [ends_within, ends_assertVec holds.asserts]
      exact ends_within_built fun refused done => ends_copyWith holds allowed refused
        fun vec later born => done vec later ⟨_, _, born⟩
  | copyWith self al =>
      simp only [Maker.make, ends_bind, ends_load]
      exact ends_within_built fun refused done => ends_copyWith (invariant.holds allowed.1) allowed.2 refused
        fun vec later born => done vec later ⟨_, al, born⟩

/-- The block goes from one vec to another, or back to the vec it was taken from. -/
theorem rewrapped (invariant : Invariant others s abs) (real : (s.objs self).al.isSome = true)
    (bare : out = self ∨ (s.objs out).data = none) :
    Ends (VecObjects.rewrap α out self) s (fun _ later =>
      Invariant others later (update (update abs self []) out (abs self))) := by
  have holds := invariant.holds real
  simp only [rewrap, ends_bind, ends_load, ends_within, ends_intoRaw holds, ends_store, ends_initRaw holds]
  by_cases same : out = self
  · subst same
    rw [update_idem, update_idem, update_eq_self, update_eq_self]
    exact invariant
  · have nothing : kind.owned (s.objs out) (abs out) = [] := by
      change (s.objs out).data.toList = []
      rw [bare.resolve_left same]
      rfl
    have idle : Kept s.mem.blocks inert ([] : List α) := Or.inl ⟨rfl, rfl⟩
    have moved := Objects.Among.moved invariant self nothing idle rfl
    rw [update_comm same, update_comm same] at moved
    exact moved

theorem copyAssigned (invariant : Invariant others s abs) (realSelf : (s.objs self).al.isSome = true)
    (realOther : (s.objs other).al.isSome = true) (alike : Call.Alike s self other) :
    Ends (VecObjects.copyAssign α self other) s (fun st later =>
      (st = .ok ∧ Invariant others later (update abs self (abs other))) ∨
        (st = .errNoMem ∧ later.objs = s.objs ∧ later.mem.blocks = s.mem.blocks)) := by
  apply Objects.Among.copied invariant sound realSelf realOther (decide_eq_true alike)
  intro different
  apply ends_copyOver (invariant.holds realSelf) (invariant.holds realOther) alike
    (Objects.Among.apart invariant (Ne.symm different))
  · exact fun later unchanged => Or.inr ⟨rfl, unchanged⟩
  · exact fun after later tends => Or.inl ⟨rfl, Or.inr tends.holds, tends.evolves⟩

/-- Every call ends, whatever the allocator answers, hands out what it does on lists, and
leaves the contents that it leaves there; a refused call leaves everything. -/
theorem run (invariant : Invariant others s abs) (call : Call α C) (allowed : call.Allowed s) :
    Ends (call.run zero) s (fun result later =>
      (result = (.ok, call.answer abs) ∧ Invariant others later (call.apply zero abs)) ∨
        (result = (.errNoMem, .nothing) ∧ later.objs = s.objs ∧ later.mem.blocks = s.mem.blocks)) := by
  cases call with
  | init out elem al =>
      simp only [Call.run, ends_bind, ends_within, ends_init allowed.2.1 allowed.2.2, ends_store, ends_pure]
      apply Or.inl
      exact ⟨rfl, invariant.born allowed.1 ⟨Holds.of_bare allowed.2.2 allowed.2.1 rfl rfl rfl, Evolves.refl _ _, rfl, rfl⟩⟩
  | make out maker =>
      simp only [Call.run, ends_bind]
      apply (invariant.made maker allowed.2).mono
      rintro result mid ⟨sameObjs, ⟨vec, rfl, elem, al, born⟩ | ⟨rfl, same⟩⟩
      · simp only [fill, ends_bind, ends_store, ends_pure, sameObjs]
        exact Or.inl ⟨rfl, invariant.born allowed.1 born⟩
      · simp only [fill, ends_pure]
        exact Or.inr ⟨trivial, sameObjs, same⟩
  | deinit self =>
      simp only [Call.run, ends_bind, ends_load, ends_within]
      refine (Objects.Among.released invariant sound self).mono ?_
      rintro after later ⟨rfl, cleared⟩
      simp only [ends_store, ends_pure]
      exact Or.inl ⟨rfl, cleared⟩
  | rewrap out self =>
      simp only [Call.run, ends_bind, ends_pure]
      exact (invariant.rewrapped allowed.1 allowed.2).mono fun _ later now => Or.inl ⟨rfl, now⟩
  | copyAssign self other =>
      simp only [Call.run, ends_bind, ends_pure]
      apply (invariant.copyAssigned allowed.1 allowed.2.1 allowed.2.2).mono
      rintro st later (⟨rfl, now⟩ | ⟨rfl, unchanged⟩)
      · exact Or.inl ⟨rfl, now⟩
      · exact Or.inr ⟨rfl, unchanged⟩
  | moveAssign self other =>
      simp only [Call.run, ends_bind, ends_pure]
      apply (Objects.Among.ends_moveAssign invariant sound allowed.1
        fun real => decide_eq_true (allowed.2 real)).mono
      exact fun _ later now => Or.inl ⟨rfl, now⟩
  | swap self other =>
      simp only [Call.run, ends_bind, ends_pure]
      apply (Objects.Among.ends_swap invariant sound allowed.1 allowed.2.1 (decide_eq_true allowed.2.2)).mono
      exact fun _ later now => Or.inl ⟨rfl, now⟩
  | op self task =>
      simp only [Call.run, ends_bind, ends_load, ends_within]
      apply (task.ends_run (invariant.holds allowed.1) allowed.2).mono
      rintro result mem (⟨after, rfl, tends⟩ | ⟨rfl, same⟩)
      · simp only [ends_store, ends_pure]
        exact Or.inl ⟨rfl, invariant.tended tends⟩
      · simp only [ends_store, ends_pure]
        exact Or.inr ⟨trivial, update_eq_self self s.objs, same⟩

end Invariant

/-- In every run, the lists are the contents of the vecs. -/
theorem Follows.invariant (follows : Follows C zero s abs) : Invariant (fun _ => none) s abs := by
  induction follows with
  | start answers => exact Objects.Among.start inert (Or.inl ⟨rfl, rfl⟩) rfl answers
  | call before call allowed ran ih =>
      rcases (ih.run call allowed).of_eq ran with ⟨same, now⟩ | ⟨same, sameObjs, sameBlocks⟩
      · cases same
        exact now
      · cases same
        exact ih.unchanged sameObjs sameBlocks
  | scribble before blocks scribbles ih =>
      have alone := Objects.Among.iff_invariant.mp ih
      exact Objects.Among.iff_invariant.mpr (Invariant.scribbled alone scribbles)

end Vec

/-!
## Vecs refine sequences

Whatever program of vec operations is run, each vec stands for the list that
the same program computes on lists.
-/

namespace Vec

open Objects

variable {α C : Type} {s : VecObjects α} {abs : Nat -> List α} {zero : α}

/-- How a vec stands for a list of elems. -/
structure Represents (heap : VecMem α) (vec : Vec) (elems : List α) : Prop where
  len : vec.len = elems.length
  elem : forall idx, idx < vec.len -> Ends (get vec idx) heap fun val later =>
    some val = elems[idx]? ∧ later = heap
  span : Ends (toSpan vec) heap fun s later => later = heap ∧ Span.Holds heap.blocks s elems

theorem Holds.represents {heap : VecMem α} {vec : Vec} {elems : List α} (holds : Holds heap.blocks vec elems) :
    Represents heap vec elems := by
  constructor
  · exact holds.len
  · intro idx inside
    have within : idx < elems.length := holds.len ▸ inside
    have found : elems[idx]? = some elems[idx] := List.getElem?_eq_getElem within
    rw [ends_get holds found]
    exact ⟨found.symm, rfl⟩
  · rw [ends_toSpan holds]
    exact ⟨rfl, holds.span_holds⟩

/-- There is a block exactly where there is room, and no more elems than room. -/
theorem Kept.roomy {blocks : Blocks AlTag (List (Option α))} {vec : Vec} {elems : List α}
    (kept : Kept blocks vec elems) : (vec.data = none <-> vec.cap = 0) ∧ vec.len ≤ vec.cap := by
  rcases kept with ⟨rfl, _⟩ | holds
  · exact ⟨⟨fun _ => rfl, fun _ => rfl⟩, Nat.le_refl 0⟩
  · exact ⟨holds.bare, holds.load⟩

/-- In every run each vec stands for the list that the same run computes on lists, and every
call that is allowed ends, and hands out what it does on lists, or is refused and leaves all
as it was.  Spare cells may be unset between any two calls, and to read an elem out of one
that is unset goes wrong: so none of the calls, all of which end, reads a spare cell. -/
theorem Follows.sequences (follows : Follows C zero s abs) :
    (forall var, (s.objs var).al.isSome = true -> Represents s.mem (s.objs var) (abs var)) ∧
    (forall var, ((s.objs var).data = none <-> (s.objs var).cap = 0) ∧ (s.objs var).len ≤ (s.objs var).cap) ∧
    forall call : Call α C, call.Allowed s -> Ends (call.run zero) s fun result later =>
      Follows C zero later (if result.1 = .ok then call.apply zero abs else abs) ∧
      (result = (.ok, call.answer abs) ∨
        (result = (.errNoMem, .nothing) ∧ later.objs = s.objs ∧ later.mem.blocks = s.mem.blocks)) := by
  have invariant := follows.invariant
  refine ⟨?_, ?_, ?_⟩
  · exact fun var real => (invariant.holds real).represents
  · exact fun var => (invariant.held var).roomy
  · intro call allowed
    rcases invariant.run call allowed with ⟨⟨st, handed⟩, later, ran, outcome⟩
    exact ⟨(st, handed), later, ran, follows.call call allowed ran, outcome.imp_left And.left⟩

/-! ## A block that is used again -/

/-- The state after a call, if it ended. -/
def Call.after (call : Call Nat Unit) (s : VecObjects Nat) : VecObjects Nat :=
  ((call.run 0 s).map Prod.snd).getD s

/-- A vec of 1, 2, 3 loses its first elem to the last one, and gets 4 between the two. -/
def shuffled : VecObjects Nat :=
  (Call.op 0 (.insert 1 (.outside 4))).after ((Call.op 0 (.swapRemove 0)).after
    ((Call.make 0 (.fromData [1, 2, 3] ⟨4, 4⟩ (some 0))).after ⟨fun _ => inert, ⟨fun _ => none, some, 0⟩⟩))

theorem shuffled_follows : exists abs, Follows Unit 0 shuffled abs ∧ abs 0 = [3, 4, 2] := by
  have made := (Follows.start some : Follows Unit (0 : Nat) _ _).call
    (.make 0 (.fromData [1, 2, 3] ⟨4, 4⟩ (some 0))) ⟨rfl, by decide, rfl⟩ rfl
  have removed := made.call (.op 0 (.swapRemove 0)) ⟨rfl, (by decide : 0 < 3)⟩ rfl
  have inserted := removed.call (.op 0 (.insert 1 (.outside 4))) ⟨rfl, (by decide : 1 ≤ 2), trivial⟩ rfl
  exact ⟨_, inserted, rfl⟩

theorem Follows.sequences_shuffled : Represents shuffled.mem (shuffled.objs 0) [3, 4, 2] := by
  rcases shuffled_follows with ⟨abs, follows, contents⟩
  rw [← contents]
  exact (Follows.sequences follows).1 0 rfl

end Vec
end TerseDsa
