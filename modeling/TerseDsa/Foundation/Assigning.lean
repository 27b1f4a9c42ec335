import TerseDsa.Foundation.Sharing

namespace TerseDsa
namespace Foundation

open Run
open Function (update update_idem update_self update_of_ne update_eq_self)

/-!
# Copying, moving and swapping owning objects

What a library does to assign one owning object to another differs from one
kind of object to the next only in how an object is checked, released and made
anew.  A `Handling` names these, and the programs are written over it once.
That they keep the invariant of objects that share their memory follows from
what is true of the `Handling`, which `Handling.Sound` says.
-/

namespace Objects

variable {Obj Form Tag Cell β : Type}

theorem within_require (p : Prop) [Decidable p] :
    within (require p) = (require p : Run (Objects Obj Tag Cell) Unit) := by
  funext s
  by_cases holds : p
  · simp only [require, if_pos holds]
    rfl
  · simp only [require, if_neg holds]
    rfl

theorem require_decide {S : Type} (p : Prop) [Decidable p] :
    (require (decide p = true) : Run S Unit) = require p := by
  by_cases holds : p
  · simp only [require, holds, decide_true, if_true]
  · simp only [require, holds, decide_false, Bool.false_eq_true, if_false]

/-- What builds an object in the memory touches no variable. -/
theorem ends_within_built {s : Objects Obj Tag Cell} {build : Run (Heap Tag Cell) (β × Option Obj)} {made refused : β}
    {Built : Obj -> Objects Obj Tag Cell -> Prop}
    (builds : forall {post : β × Option Obj -> Heap Tag Cell -> Prop},
      (forall later : Heap Tag Cell, later.blocks = s.mem.blocks -> post (refused, none) later) ->
      (forall (obj : Obj) (later : Heap Tag Cell), Built obj { s with mem := later } -> post (made, some obj) later) ->
      Ends build s.mem post) :
    Ends (within build) s fun result later => later.objs = s.objs ∧
      ((exists obj, result = (made, some obj) ∧ Built obj later) ∨
        (result = (refused, none) ∧ later.mem.blocks = s.mem.blocks)) := by
  rw [ends_within]
  apply builds
  · exact fun later same => ⟨rfl, Or.inr ⟨rfl, same⟩⟩
  · exact fun obj later built => ⟨rfl, Or.inl ⟨obj, rfl, built⟩⟩

/-- How the objects of a library are checked, compared, released and made anew.
An object that is not `real` is one that was never made, or was released. -/
structure Handling (Obj Tag Cell : Type) where
  inert : Obj
  real : Obj -> Bool
  alike : Obj -> Obj -> Bool
  check : Obj -> Run (Heap Tag Cell) Unit
  release : Obj -> Run (Heap Tag Cell) Obj
  renew : Obj -> Run (Heap Tag Cell) Obj

namespace Handling

variable (handling : Handling Obj Tag Cell)

/-- The checks an operation on two objects starts with. -/
def checkPair (self other : Nat) : Run (Objects Obj Tag Cell) (Obj × Obj) := do
  let a ← load self
  let b ← load other
  within (handling.check a)
  within (handling.check b)
  require (handling.alike a b = true)
  return (a, b)

/-- Copy assignment; `over` does it for two different objects, and `kept` is the
answer where they are one. -/
def copyAssign (replace : Obj -> Obj -> Run (Heap Tag Cell) (β × Obj)) (kept : β) (self other : Nat) :
    Run (Objects Obj Tag Cell) β := do
  let (a, b) ← handling.checkPair self other
  if self = other then
    return kept
  let (answer, after) ← within (replace a b)
  store self after
  return answer

/-- Move assignment: `other` is left empty. -/
def moveAssign (self other : Nat) : Run (Objects Obj Tag Cell) Unit := do
  let a ← load self
  let b ← load other
  within (handling.check b)
  if handling.real a = true then
    within (handling.check a)
    require (handling.alike a b = true)
  if self = other then
    return ()
  store self (← within (handling.release a))
  store self b
  let fresh ← within (handling.renew b)
  store other fresh
  within (handling.check b)
  within (handling.check fresh)

/-- Two objects are swapped. -/
def swap (self other : Nat) : Run (Objects Obj Tag Cell) Unit := do
  let (a, b) ← handling.checkPair self other
  if self = other then
    return ()
  store self b
  store other a
  within (handling.check b)
  within (handling.check a)

/-- A new object holds nothing, and owns no block. -/
structure Empty (kind : Kind Obj Form Tag Cell) (bare : Form) (obj : Obj) : Prop where
  held : forall blocks : Blocks Tag Cell, kind.Holds blocks obj bare
  owned : kind.owned obj bare = []

/-- The checks pass on objects that are held, and releasing one gives its blocks back. -/
structure Sound (kind : Kind Obj Form Tag Cell) (bare : Form) : Prop where
  idle : Empty kind bare handling.inert
  idle_of : forall {blocks : Blocks Tag Cell} {obj : Obj} {form : Form}, kind.Holds blocks obj form ->
    handling.real obj = false -> obj = handling.inert ∧ form = bare
  check : forall {heap : Heap Tag Cell} {obj : Obj} {form : Form}, kind.Holds heap.blocks obj form ->
    handling.real obj = true -> forall post : Unit -> Heap Tag Cell -> Prop,
      Ends (handling.check obj) heap post <-> post () heap
  release_idle : forall (heap : Heap Tag Cell) (post : Obj -> Heap Tag Cell -> Prop),
    Ends (handling.release handling.inert) heap post <-> post handling.inert heap
  release : forall {heap : Heap Tag Cell} {obj : Obj} {form : Form}, kind.Holds heap.blocks obj form ->
    handling.real obj = true -> Ends (handling.release obj) heap fun after later =>
      after = handling.inert ∧ Evolves heap.blocks later.blocks (kind.owned obj form) []
  renew : forall {blocks : Blocks Tag Cell} {obj : Obj} {form : Form}, kind.Holds blocks obj form ->
    handling.real obj = true -> exists fresh, Empty kind bare fresh ∧ handling.real fresh = true ∧
      forall (heap : Heap Tag Cell) (post : Obj -> Heap Tag Cell -> Prop),
        Ends (handling.renew obj) heap post <-> post fresh heap

end Handling

namespace Among

variable {handling : Handling Obj Tag Cell} {kind : Kind Obj Form Tag Cell} {bare : Form}
  {others : Blocks Tag Cell} {s : Objects Obj Tag Cell} {forms : Nat -> Form} {self other : Nat}

theorem released (among : Among kind others s forms) (sound : handling.Sound kind bare) (self : Nat) :
    Ends (handling.release (s.objs self)) s.mem fun after later => after = handling.inert ∧
      Among kind others ⟨update s.objs self handling.inert, later⟩ (update forms self bare) := by
  cases real : handling.real (s.objs self) with
  | false =>
      rcases sound.idle_of (among.held self) real with ⟨idle, none_⟩
      rw [idle, sound.release_idle]
      refine ⟨rfl, among.idle ?_ (sound.idle.held _) sound.idle.owned⟩
      rw [idle, none_]
      exact sound.idle.owned
  | true =>
      refine (sound.release (among.held self) real).mono fun after later gone => ⟨gone.1, ?_⟩
      apply among.act _ (sound.idle.held _)
      rw [sound.idle.owned]
      exact gone.2

theorem ends_checkPair (among : Among kind others s forms) (sound : handling.Sound kind bare)
    (realSelf : handling.real (s.objs self) = true) (realOther : handling.real (s.objs other) = true)
    (alike : handling.alike (s.objs self) (s.objs other) = true)
    {post : Obj × Obj -> Objects Obj Tag Cell -> Prop} :
    Ends (handling.checkPair self other) s post <-> post (s.objs self, s.objs other) s := by
  simp only [Handling.checkPair, ends_bind, ends_load, ends_within, sound.check (among.held self) realSelf,
    sound.check (among.held other) realOther, ends_require, alike, true_and, ends_pure]

theorem ends_copyAssign (among : Among kind others s forms) (sound : handling.Sound kind bare)
    (realSelf : handling.real (s.objs self) = true) (realOther : handling.real (s.objs other) = true)
    (alike : handling.alike (s.objs self) (s.objs other) = true)
    {replace : Obj -> Obj -> Run (Heap Tag Cell) (β × Obj)} {kept : β} {post : β -> Objects Obj Tag Cell -> Prop}
    (same : self = other -> post kept s)
    (copied : self ≠ other -> Ends (replace (s.objs self) (s.objs other)) s.mem fun answer later =>
      post answer.1 ⟨update s.objs self answer.2, later⟩) :
    Ends (handling.copyAssign replace kept self other) s post := by
  simp only [Handling.copyAssign, ends_bind, among.ends_checkPair sound realSelf realOther alike]
  by_cases one : self = other
  · rw [if_pos one, ends_pure]
    exact same one
  · simp only [if_neg one, ends_bind, ends_within, ends_store, ends_pure]
    exact copied one

/-- Where replacing an object by a copy succeeds or leaves no trace, so does assigning it. -/
theorem copied (among : Among kind others s forms) (sound : handling.Sound kind bare)
    (realSelf : handling.real (s.objs self) = true) (realOther : handling.real (s.objs other) = true)
    (alike : handling.alike (s.objs self) (s.objs other) = true)
    {replace : Obj -> Obj -> Run (Heap Tag Cell) (β × Obj)} {kept refused : β}
    (replaced : self ≠ other -> Ends (replace (s.objs self) (s.objs other)) s.mem fun answer later =>
      (answer.1 = kept ∧ kind.Holds later.blocks answer.2 (forms other) ∧
        Evolves s.mem.blocks later.blocks (kind.owned (s.objs self) (forms self)) (kind.owned answer.2 (forms other))) ∨
        (answer = (refused, s.objs self) ∧ later.blocks = s.mem.blocks)) :
    Ends (handling.copyAssign replace kept self other) s fun answer later =>
      (answer = kept ∧ Among kind others later (update forms self (forms other))) ∨
        (answer = refused ∧ later.objs = s.objs ∧ later.mem.blocks = s.mem.blocks) := by
  apply among.ends_copyAssign sound realSelf realOther alike
  · rintro rfl
    rw [update_eq_self]
    exact Or.inl ⟨rfl, among⟩
  · intro different
    refine (replaced different).mono ?_
    rintro ⟨answer, after⟩ later (⟨same, holds, evolves⟩ | ⟨same, still⟩)
    · exact Or.inl ⟨same, among.act evolves holds⟩
    · cases same
      exact Or.inr ⟨rfl, update_eq_self self s.objs, still⟩

/-- Both objects are real afterwards, and no other one is touched. -/
theorem ends_moveAssign_real (among : Among kind others s forms) (sound : handling.Sound kind bare)
    (realOther : handling.real (s.objs other) = true)
    (alike : handling.real (s.objs self) = true -> handling.alike (s.objs self) (s.objs other) = true) :
    Ends (handling.moveAssign self other) s fun _ later => (Among kind others later
      (if self = other then forms else update (update forms self (forms other)) other bare)) ∧
      handling.real (later.objs self) = true ∧ handling.real (later.objs other) = true ∧
      forall var, var ≠ self -> var ≠ other -> later.objs var = s.objs var := by
  have rest : Ends (if self = other then return () else do
      store self (← within (handling.release (s.objs self)))
      store self (s.objs other)
      let fresh ← within (handling.renew (s.objs other))
      store other fresh
      within (handling.check (s.objs other))
      within (handling.check fresh)) s fun _ later => (Among kind others later
        (if self = other then forms else update (update forms self (forms other)) other bare)) ∧
        handling.real (later.objs self) = true ∧ handling.real (later.objs other) = true ∧
        forall var, var ≠ self -> var ≠ other -> later.objs var = s.objs var := by
    by_cases one : self = other
    · rw [if_pos one, if_pos one, ends_pure]
      exact ⟨among, one ▸ realOther, realOther, fun _ _ _ => rfl⟩
    · have different : other ≠ self := Ne.symm one
      rcases sound.renew (among.held other) realOther with ⟨fresh, empty, realFresh, renewed⟩
      simp only [if_neg one, ends_bind, ends_within]
      refine (among.released sound self).mono ?_
      rintro after later ⟨rfl, cleared⟩
      have nothing : kind.owned (update s.objs self handling.inert self)
          (update forms self bare self) = [] := by
        rw [update_self, update_self]
        exact sound.idle.owned
      have final := cleared.moved other nothing (empty.held _) empty.owned
      have held := cleared.held other
      simp only [update_idem, update_of_ne different] at final held
      simp only [ends_store, update_idem, renewed, sound.check held realOther,
        sound.check (empty.held later.blocks) realFresh]
      refine ⟨final, ?_, ?_, ?_⟩
      · rwa [update_of_ne (Ne.symm different), update_self]
      · rwa [update_self]
      · exact fun var first second => by rw [update_of_ne second, update_of_ne first]
  simp only [Handling.moveAssign, ends_bind, ends_load, ends_within, sound.check (among.held other) realOther]
  by_cases real : handling.real (s.objs self) = true
  · simp only [if_pos real, ends_bind, ends_within, sound.check (among.held self) real, ends_require,
      alike real, true_and]
    exact rest
  · rw [if_neg real]
    exact rest

theorem ends_moveAssign (among : Among kind others s forms) (sound : handling.Sound kind bare)
    (realOther : handling.real (s.objs other) = true)
    (alike : handling.real (s.objs self) = true -> handling.alike (s.objs self) (s.objs other) = true) :
    Ends (handling.moveAssign self other) s fun _ later => Among kind others later
      (if self = other then forms else update (update forms self (forms other)) other bare) :=
  (among.ends_moveAssign_real sound realOther alike).mono fun _ _ => And.left

/-- The two objects trade places, and nothing else is changed. -/
theorem ends_swap_traded (among : Among kind others s forms) (sound : handling.Sound kind bare)
    (realSelf : handling.real (s.objs self) = true) (realOther : handling.real (s.objs other) = true)
    (alike : handling.alike (s.objs self) (s.objs other) = true) :
    Ends (handling.swap self other) s fun _ later =>
      later = ⟨fun var => s.objs (Equiv.swap self other var), s.mem⟩ := by
  simp only [Handling.swap, ends_bind, among.ends_checkPair sound realSelf realOther alike]
  by_cases one : self = other
  · subst one
    simp only [if_true, ends_pure, Equiv.swap_self, Equiv.refl_apply]
  · simp only [if_neg one, ends_bind, ends_store, ends_within, sound.check (among.held self) realSelf,
      sound.check (among.held other) realOther, update_update_eq_swap]

theorem ends_swap (among : Among kind others s forms) (sound : handling.Sound kind bare)
    (realSelf : handling.real (s.objs self) = true) (realOther : handling.real (s.objs other) = true)
    (alike : handling.alike (s.objs self) (s.objs other) = true) :
    Ends (handling.swap self other) s fun _ later =>
      Among kind others later fun var => forms (Equiv.swap self other var) := by
  refine (among.ends_swap_traded sound realSelf realOther alike).mono ?_
  rintro _ _ rfl
  exact among.traded self other

end Among

end Objects
end Foundation
end TerseDsa
