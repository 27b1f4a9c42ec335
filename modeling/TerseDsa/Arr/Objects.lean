import TerseDsa.Arr.Contents

namespace TerseDsa

open Foundation Run
open Function (update update_eq_self)

/-!
# Arrs as objects

Arrs are numbered variables over one memory, as vecs are.  `Invariant.run` says
what a call does to the lists that the arrs hold.
-/

namespace Arr

open Objects ArrObjects

variable {α : Type} {s : ArrObjects α} {abs : Nat -> List α} {zero : α}

/-! ## Calls -/

/-- The constructors that write to `out` only when they succeed. -/
inductive Maker (α : Type) where
  | initLen (len : Nat) (elem : Layout) (al : Al)
  | fromData (data : List α) (elem : Layout) (al : Al)
  | fromSpan (src : SpanView α) (al : Al)
  | copy (self : Nat)
  | copyWith (self : Nat) (al : Al)

namespace Maker

/-- Build the object. -/
def make (zero : α) : Maker α -> Run (ArrObjects α) (Status × Option Arr)
  | initLen len elem al => within (Arr.initLen zero len elem al)
  | fromData data elem al => within (Arr.fromData data elem al)
  | fromSpan src al => within (Arr.fromSpan src al)
  | copy self => do
      let arr ← load self
      within (assertArr arr)
      within (Arr.copyWith α arr arr.al)
  | copyWith self al => do
      let arr ← load self
      within (Arr.copyWith α arr al)

/-- What the caller has to see to. -/
def Allowed (s : ArrObjects α) : Maker α -> Prop
  | initLen _ elem al | fromData _ elem al => elem.isType = true ∧ al.isSome = true
  | fromSpan src al => src.elem.isType = true ∧ al.isSome = true
  | copy self => (s.objs self).al.isSome = true
  | copyWith self al => (s.objs self).al.isSome = true ∧ al.isSome = true

/-- The elems of the object. -/
def contents (zero : α) (abs : Nat -> List α) : Maker α -> List α
  | initLen len _ _ => List.replicate len zero
  | fromData data _ _ => data
  | fromSpan src _ => src.elems
  | copy self | copyWith self _ => abs self

end Maker

/-- The elem that an operand is. -/
def operandOf (zero : α) (elems : List α) : Operand α -> α
  | .outside val => val
  | .slot slot => elems[slot]?.getD zero

/-- A call of a public operation of arrs, with its arguments. -/
inductive Call (α : Type) where
  | make (out : Nat) (maker : Maker α)
  | deinit (self : Nat)
  | copyAssign (self other : Nat)
  | moveAssign (self other : Nat)
  | swap (self other : Nat)
  | set (self : Nat) (idx : Nat) (val : Operand α)
  | swapElems (self : Nat) (i j : Nat)

namespace Call

/-- Make the call; functions without a status succeed. -/
def run (zero : α) : Call α -> Run (ArrObjects α) Status
  | make out maker => do fill out (← maker.make zero)
  | deinit self => do
      store self (← within (Arr.deinit α (← load self)))
      return .ok
  | copyAssign self other => ArrObjects.copyAssign α self other
  | moveAssign self other => do
      ArrObjects.moveAssign α self other
      return .ok
  | swap self other => do
      ArrObjects.swap α self other
      return .ok
  | set self idx val => do
      within (Arr.set (← load self) idx val)
      return .ok
  | swapElems self i j => do
      within (Arr.swapElems α (← load self) i j)
      return .ok

/-- Two arrs of one elem layout. -/
def Alike (s : ArrObjects α) (self other : Nat) : Prop := (s.objs self).elem = (s.objs other).elem

/-- What the caller has to see to: `self` and `other` are initialised and of one layout, an
index is of an elem, and `out` is a variable that owns no block, since it is overwritten. -/
def Allowed (s : ArrObjects α) : Call α -> Prop
  | make out maker => (s.objs out).data = none ∧ maker.Allowed s
  | deinit _ => True
  | copyAssign self other | swap self other =>
      (s.objs self).al.isSome = true ∧ (s.objs other).al.isSome = true ∧ Alike s self other
  | moveAssign self other =>
      (s.objs other).al.isSome = true ∧ ((s.objs self).al.isSome = true -> Alike s self other)
  | set self idx val => (s.objs self).al.isSome = true ∧ idx < (s.objs self).len ∧
      forall slot, val = .slot slot -> slot < (s.objs self).len
  | swapElems self i j => (s.objs self).al.isSome = true ∧ i < (s.objs self).len ∧ j < (s.objs self).len

/-- The same call on plain lists. -/
def apply (zero : α) (abs : Nat -> List α) : Call α -> Nat -> List α
  | make out maker => update abs out (maker.contents zero abs)
  | deinit self => update abs self []
  | copyAssign self other => update abs self (abs other)
  | moveAssign self other =>
      if self = other then abs else update (update abs self (abs other)) other []
  | swap self other => fun var => abs (Equiv.swap self other var)
  | set self idx val => update abs self ((abs self).set idx (operandOf zero (abs self) val))
  | swapElems self i j => update abs self (Span.exchanged (abs self) i j)

end Call

/-! ## The invariant -/

/-- An arr over a block, or an inert one. -/
def Kept (blocks : Blocks AlTag (List (Option α))) (arr : Arr) (elems : List α) : Prop :=
  (arr = inert ∧ elems = []) ∨ Holds blocks arr elems

/-- Arrs own their block. -/
@[reducible] def kind : Kind Arr (List α) AlTag (List (Option α)) where
  owned arr _ := arr.data.toList
  Holds := Kept
  live := by
    intro blocks arr elems addr kept mine
    rcases kept with ⟨rfl, _⟩ | holds
    · exact absurd mine List.not_mem_nil
    · exact Vec.Holds.live holds mine
  congr := by
    intro blocks other arr elems kept agree
    exact kept.imp_right fun holds => Vec.Holds.congr holds agree

theorem Kept.holds {blocks : Blocks AlTag (List (Option α))} {arr : Arr} {elems : List α}
    (kept : Kept blocks arr elems) (real : arr.al.isSome = true) : Holds blocks arr elems := by
  rcases kept with ⟨rfl, _⟩ | holds
  · cases real
  · exact holds

theorem sound : (handling α).Sound (kind (α := α)) [] where
  idle := ⟨fun _ => Or.inl ⟨rfl, rfl⟩, rfl⟩
  idle_of := by
    intro blocks arr elems kept unreal
    rcases kept with idle | holds
    · exact idle
    · exact absurd (Vec.Holds.real holds) (ne_true_of_eq_false unreal)
  check kept real post := (kept.holds real).ends_assertArr
  release_idle _ _ := ends_deinit_inert
  release kept real := ends_deinit (kept.holds real) fun _ gone => ⟨rfl, gone⟩
  renew := by
    intro blocks arr elems kept real
    have isType : arr.elem.isType = true := (Vec.Holds.asserts (kept.holds real)).1
    have bare : forall blocks : Blocks AlTag (List (Option α)), Holds blocks (bareOf arr) [] :=
      fun _ => Vec.Holds.of_bare real isType rfl rfl rfl
    exact ⟨bareOf arr, ⟨fun _ => Or.inr (bare _), rfl⟩, real, fun _ _ => ends_pure _ _ _⟩

/-- The lists are the contents of the arrs, and the live blocks are theirs or the others'. -/
abbrev Invariant (others : Blocks AlTag (List (Option α))) (s : ArrObjects α) (abs : Nat -> List α) : Prop :=
  Objects.Among kind others s abs

namespace Invariant

variable {others : Blocks AlTag (List (Option α))} {obj out self other : Nat} {elems : List α} {mem : ArrMem α}

theorem holds (invariant : Invariant others s abs) (real : (s.objs obj).al.isSome = true) :
    Holds s.mem.blocks (s.objs obj) (abs obj) :=
  (invariant.held obj).holds real

theorem tended {after : Arr} (invariant : Invariant others s abs)
    (tends : Tends s.mem.blocks mem.blocks (s.objs obj) after elems) :
    Invariant others ⟨update s.objs obj after, mem⟩ (update abs obj elems) :=
  Objects.Among.act invariant tends.evolves (Or.inr tends.holds)

theorem tended_here (invariant : Invariant others s abs)
    (tends : Tends s.mem.blocks mem.blocks (s.objs obj) (s.objs obj) elems) :
    Invariant others { s with mem := mem } (update abs obj elems) := by
  have now := invariant.tended tends
  rwa [update_eq_self] at now

/-- A variable that owned nothing is overwritten by an arr that was built. -/
theorem born {arr : Arr} {elem : Layout} {al : Al} (invariant : Invariant others s abs)
    (bare : (s.objs out).data = none) (born : Born s.mem.blocks mem.blocks arr elems elem al) :
    Invariant others ⟨update s.objs out arr, mem⟩ (update abs out elems) := by
  apply Objects.Among.act invariant _ (Or.inr born.holds)
  change Evolves _ _ (s.objs out).data.toList _
  rw [bare]
  exact born.evolves

/-- A constructor builds an arr of the elems it should have, or leaves no trace. -/
theorem made (invariant : Invariant others s abs) (maker : Maker α) (allowed : maker.Allowed s) :
    Ends (maker.make zero) s (fun result later => later.objs = s.objs ∧
      ((exists arr, result = (.ok, some arr) ∧
          exists elem al, Born s.mem.blocks later.mem.blocks arr (maker.contents zero abs) elem al) ∨
        (result = (.errNoMem, none) ∧ later.mem.blocks = s.mem.blocks))) := by
  cases maker with
  | initLen len elem al =>
      exact ends_within_built fun refused done => ends_initLen allowed.1 allowed.2 refused
        fun arr later born => done arr later ⟨elem, al, born⟩
  | fromData data elem al =>
      exact ends_within_built fun refused done => ends_fromData allowed.1 allowed.2 refused
        fun arr later born => done arr later ⟨elem, al, born⟩
  | fromSpan src al =>
      exact ends_within_built fun refused done => ends_fromData allowed.1 allowed.2 refused
        fun arr later born => done arr later ⟨src.elem, al, born⟩
  | copy self =>
      have holds := invariant.holds allowed
      simp only [Maker.make, ends_bind, ends_load]
      rw [ends_within, holds.ends_assertArr]
      exact ends_within_built fun refused done => ends_copyWith holds allowed refused
        fun arr later born => done arr later ⟨_, _, born⟩
  | copyWith self al =>
      simp only [Maker.make, ends_bind, ends_load]
      exact ends_within_built fun refused done => ends_copyWith (invariant.holds allowed.1) allowed.2 refused
        fun arr later born => done arr later ⟨_, al, born⟩

theorem copyAssigned (invariant : Invariant others s abs) (realSelf : (s.objs self).al.isSome = true)
    (realOther : (s.objs other).al.isSome = true) (alike : Call.Alike s self other) :
    Ends (ArrObjects.copyAssign α self other) s (fun st later =>
      (st = .ok ∧ Invariant others later (update abs self (abs other))) ∨
        (st = .errNoMem ∧ later.objs = s.objs ∧ later.mem.blocks = s.mem.blocks)) := by
  apply Objects.Among.copied invariant sound realSelf realOther (decide_eq_true alike)
  intro different
  apply ends_copyOver (invariant.holds realSelf) (invariant.holds realOther) alike
    (Objects.Among.apart invariant (Ne.symm different))
  · exact fun later unchanged => Or.inr ⟨rfl, unchanged⟩
  · exact fun after later tends => Or.inl ⟨rfl, Or.inr tends.holds, tends.evolves⟩

theorem names (invariant : Invariant others s abs) (real : (s.objs obj).al.isSome = true) {val : Operand α}
    (inside : forall slot, val = .slot slot -> slot < (s.objs obj).len) :
    Vec.Names (abs obj) (operandOf zero (abs obj) val) val := by
  cases val with
  | outside given => rfl
  | slot slot =>
      have len : (s.objs obj).len = (abs obj).length := (invariant.holds real).len
      have below := inside slot rfl
      rw [len] at below
      change (abs obj)[slot]? = some ((abs obj)[slot]?.getD zero)
      rw [List.getElem?_eq_getElem below]
      rfl

/-- Every call ends, whatever the allocator answers, and leaves the contents that it leaves on
lists; a refused call leaves everything. -/
theorem run (invariant : Invariant others s abs) (call : Call α) (allowed : call.Allowed s) :
    Ends (call.run zero) s (fun st later =>
      (st = .ok ∧ Invariant others later (call.apply zero abs)) ∨
        (st = .errNoMem ∧ later.objs = s.objs ∧ later.mem.blocks = s.mem.blocks)) := by
  cases call with
  | make out maker =>
      simp only [Call.run, ends_bind]
      apply (invariant.made maker allowed.2).mono
      rintro result mid ⟨sameObjs, ⟨arr, rfl, elem, al, born⟩ | ⟨rfl, same⟩⟩
      · simp only [fill, ends_bind, ends_store, ends_pure, sameObjs]
        exact Or.inl ⟨trivial, invariant.born allowed.1 born⟩
      · simp only [fill, ends_pure]
        exact Or.inr ⟨trivial, sameObjs, same⟩
  | deinit self =>
      simp only [Call.run, ends_bind, ends_load, ends_within]
      refine (Objects.Among.released invariant sound self).mono ?_
      rintro after later ⟨rfl, cleared⟩
      simp only [ends_store, ends_pure]
      exact Or.inl ⟨trivial, cleared⟩
  | copyAssign self other => exact invariant.copyAssigned allowed.1 allowed.2.1 allowed.2.2
  | moveAssign self other =>
      simp only [Call.run, ends_bind, ends_pure]
      apply (Objects.Among.ends_moveAssign invariant sound allowed.1
        fun real => decide_eq_true (allowed.2 real)).mono
      exact fun _ later now => Or.inl ⟨trivial, now⟩
  | swap self other =>
      simp only [Call.run, ends_bind, ends_pure]
      apply (Objects.Among.ends_swap invariant sound allowed.1 allowed.2.1 (decide_eq_true allowed.2.2)).mono
      exact fun _ later now => Or.inl ⟨trivial, now⟩
  | set self idx val =>
      have names : Vec.Names (abs self) (operandOf zero (abs self) val) val :=
        invariant.names allowed.1 allowed.2.2
      simp only [Call.run, ends_bind, ends_load, ends_within, ends_pure]
      apply ends_set (invariant.holds allowed.1) names allowed.2.1
      exact fun later tends => Or.inl ⟨trivial, invariant.tended_here tends⟩
  | swapElems self i j =>
      simp only [Call.run, ends_bind, ends_load, ends_within, ends_pure]
      apply ends_swapElems (invariant.holds allowed.1) allowed.2.1 allowed.2.2
      exact fun later tends => Or.inl ⟨trivial, invariant.tended_here tends⟩

end Invariant

end Arr
end TerseDsa
