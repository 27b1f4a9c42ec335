import TerseDsa.Foundation.Assigning

namespace TerseDsa
namespace Foundation

open Run
open Function (update update_self)

/-!
# Objects under a narrower interface

An object may be nothing but another one that hides some of its operations: the
two types are equivalent, and what is done to the outer object is done to the
inner one, between checks of its own.  When such an object hands out what is
inside, the blocks become somebody else's, who may do with them as they like.
-/

namespace Objects

variable {Outer Inner Form Tag Cell β : Type}

/-- The inner objects. -/
def inside (wrap : Outer ≃ Inner) (s : Objects Outer Tag Cell) : Objects Inner Tag Cell :=
  ⟨fun var => wrap (s.objs var), s.mem⟩

/-- The outer objects around these. -/
def around (wrap : Outer ≃ Inner) (s : Objects Inner Tag Cell) : Objects Outer Tag Cell :=
  ⟨fun var => wrap.symm (s.objs var), s.mem⟩

/-- Run on the inner objects. -/
def onInside (wrap : Outer ≃ Inner) (run : Run (Objects Inner Tag Cell) β) : Run (Objects Outer Tag Cell) β :=
  zoom (inside wrap) (fun inner _ => around wrap inner) run

section Wrapped

variable {wrap : Outer ≃ Inner} {s : Objects Outer Tag Cell} {var : Nat} {mem : Heap Tag Cell}

@[simp] theorem inside_around (inner : Objects Inner Tag Cell) : inside wrap (around wrap inner) = inner := by
  unfold inside around
  simp only [Equiv.apply_symm_apply]

/-- The objects at other places. -/
theorem around_moved (place : Nat -> Nat) :
    around wrap ⟨fun var => (inside wrap s).objs (place var), (inside wrap s).mem⟩ =
      ⟨fun var => s.objs (place var), s.mem⟩ := by
  unfold around inside
  simp only [Equiv.symm_apply_apply]

@[simp] theorem around_inside : around wrap (inside wrap s) = s := around_moved id

@[simp] theorem ends_onInside {run : Run (Objects Inner Tag Cell) β} {post : β -> Objects Outer Tag Cell -> Prop} :
    Ends (onInside wrap run) s post <->
      Ends run (inside wrap s) fun answer inner => post answer (around wrap inner) :=
  ends_zoom

theorem inside_update (obj : Outer) : inside wrap ⟨update s.objs var obj, mem⟩ =
    ⟨update (inside wrap s).objs var (wrap obj), mem⟩ := by
  unfold inside
  refine congrArg (Objects.mk · mem) (funext fun other => ?_)
  exact Function.apply_update (fun _ => wrap) s.objs var obj other

theorem around_update (obj : Inner) : around wrap ⟨update (inside wrap s).objs var obj, mem⟩ =
    ⟨update s.objs var (wrap.symm obj), mem⟩ := by
  unfold around inside
  refine congrArg (Objects.mk · mem) (funext fun other => ?_)
  rw [Function.apply_update (fun _ => wrap.symm)]
  simp only [Equiv.symm_apply_apply]

end Wrapped

/-- The others have the blocks of one object besides their own. -/
def handedOver (others blocks : Blocks Tag Cell) (owned : List Addr) : Blocks Tag Cell := fun addr =>
  if addr ∈ owned then blocks addr else others addr

namespace Among

variable {Obj : Type} {kind : Kind Obj Form Tag Cell} {others : Blocks Tag Cell} {s : Objects Obj Tag Cell}
  {forms : Nat -> Form} {after : Obj} {form : Form} {blocks : Blocks Tag Cell} {owned : List Addr} {addr : Addr}

theorem handedOver_of_mem (mine : addr ∈ owned) : handedOver others blocks owned addr = blocks addr := if_pos mine

theorem handedOver_of_not_mem (other : addr ∉ owned) : handedOver others blocks owned addr = others addr :=
  if_neg other

/-- Blocks that were live become nobody's when they are left out. -/
theorem evolves_handedOver (live : forall addr, addr ∈ owned -> blocks addr ≠ none) :
    Evolves (without others blocks) (without (handedOver others blocks owned) blocks) owned [] := by
  constructor
  · intro addr before _
    unfold without
    rw [handedOver_of_not_mem before]
  · exact fun addr later _ => absurd later List.not_mem_nil
  · intro addr before _
    apply without_of_ne
    rw [handedOver_of_mem before]
    exact live addr before

/-- An object gave all its blocks to the others. -/
theorem handed (among : Among kind others s forms) (var : Nat) (held : forall blocks, kind.Holds blocks after form)
    (nothing : kind.owned after form = []) :
    Among kind (handedOver others s.mem.blocks (kind.owned (s.objs var) (forms var)))
      ⟨update s.objs var after, s.mem⟩ (update forms var form) := by
  have gone : Evolves (without others s.mem.blocks)
      (without (handedOver others s.mem.blocks (kind.owned (s.objs var) (forms var))) s.mem.blocks)
      (kind.owned (s.objs var) (forms var)) [] :=
    evolves_handedOver fun addr mine => kind.live (among.held var) mine
  rw [← nothing] at gone
  constructor
  · have acted : Invariant kind ⟨update (aside others s).objs var after,
        ⟨without (handedOver others s.mem.blocks (kind.owned (s.objs var) (forms var))) s.mem.blocks,
          s.mem.answers, s.mem.asked⟩⟩ (update forms var form) := among.own.act gone (held _)
    exact acted
  · intro addr taken
    by_cases mine : addr ∈ kind.owned (s.objs var) (forms var)
    · exact (handedOver_of_mem mine).symm
    · rw [handedOver_of_not_mem mine] at taken ⊢
      exact among.kept addr taken

/-- The others did something with their blocks, and with blocks that were free. -/
theorem elsewhere {theirs : Blocks Tag Cell} {mem : Heap Tag Cell} (among : Among kind others s forms)
    (own : without theirs mem.blocks = without others s.mem.blocks)
    (kept : forall addr, theirs addr ≠ none -> mem.blocks addr = theirs addr) :
    Among kind theirs { s with mem := mem } forms where
  own := among.own.unchanged rfl own
  kept := kept

end Among

/-! ## Copying, moving and swapping -/

namespace Handling

variable (handling : Handling Inner Tag Cell) (wrap : Outer ≃ Inner)

/-- The check of one outer object. -/
def checkOuter {S : Type} (obj : Outer) : Run S Unit := require (handling.real (wrap obj) = true)

/-- The check that two outer objects may trade what they hold. -/
def checkAlike {S : Type} (a b : Outer) : Run S Unit := require (handling.alike (wrap a) (wrap b) = true)

def checkBoth (self other : Nat) : Run (Objects Outer Tag Cell) Unit := do
  handling.checkOuter wrap (← load self)
  handling.checkOuter wrap (← load other)

/-- Copy assignment, which is `assign` for the inner objects. -/
def copyInside (assign : Run (Objects Inner Tag Cell) β) (self other : Nat) : Run (Objects Outer Tag Cell) β := do
  handling.checkBoth wrap self other
  handling.checkAlike wrap (← load self) (← load other)
  let answer ← onInside wrap assign
  handling.checkOuter wrap (← load self)
  return answer

/-- Move assignment, which is `assign` for the inner objects. -/
def moveInside (assign : Run (Objects Inner Tag Cell) Unit) (self other : Nat) : Run (Objects Outer Tag Cell) Unit := do
  let a ← load self
  let b ← load other
  handling.checkOuter wrap b
  if handling.real (wrap a) = true then
    handling.checkOuter wrap a
    handling.checkAlike wrap a b
  onInside wrap assign
  handling.checkBoth wrap self other

/-- Two objects are swapped, which is `assign` for the inner objects. -/
def swapInside (assign : Run (Objects Inner Tag Cell) Unit) (self other : Nat) : Run (Objects Outer Tag Cell) Unit := do
  handling.checkBoth wrap self other
  handling.checkAlike wrap (← load self) (← load other)
  onInside wrap assign
  handling.checkBoth wrap self other

variable {handling wrap}

theorem ends_checkOuter {S : Type} {state : S} {obj : Outer} (real : handling.real (wrap obj) = true)
    {post : Unit -> S -> Prop} : Ends (handling.checkOuter wrap obj) state post <-> post () state := by
  simp only [checkOuter, ends_require, real, true_and]

end Handling

namespace Among

variable {handling : Handling Inner Tag Cell} {wrap : Outer ≃ Inner} {kind : Kind Inner Form Tag Cell} {bare : Form}
  {others : Blocks Tag Cell} {s : Objects Outer Tag Cell} {forms : Nat -> Form} {self other : Nat}

theorem ends_copyInside (among : Among kind others (inside wrap s) forms) (sound : handling.Sound kind bare)
    (realSelf : handling.real (wrap (s.objs self)) = true) (realOther : handling.real (wrap (s.objs other)) = true)
    (alike : handling.alike (wrap (s.objs self)) (wrap (s.objs other)) = true)
    {replace : Inner -> Inner -> Run (Heap Tag Cell) (β × Inner)} {kept : β} {post : β -> Objects Outer Tag Cell -> Prop}
    (same : self = other -> post kept s)
    (copied : self ≠ other -> Ends (replace (wrap (s.objs self)) (wrap (s.objs other))) s.mem fun answer later =>
      handling.real answer.2 = true ∧ post answer.1 ⟨update s.objs self (wrap.symm answer.2), later⟩) :
    Ends (handling.copyInside wrap (handling.copyAssign replace kept self other) self other) s post := by
  simp only [Handling.copyInside, Handling.checkBoth, Handling.checkAlike, ends_bind, ends_load,
    Handling.ends_checkOuter realSelf, Handling.ends_checkOuter realOther, ends_require, alike, true_and,
    ends_onInside, ends_pure]
  apply among.ends_copyAssign sound realSelf realOther alike
  · intro one
    rw [around_inside]
    exact (Handling.ends_checkOuter realSelf).mpr (same one)
  · intro different
    refine (copied different).mono fun answer later holds => ?_
    rw [around_update]
    have real : handling.real (wrap (update s.objs self (wrap.symm answer.2) self)) = true := by
      rw [update_self, Equiv.apply_symm_apply]
      exact holds.1
    exact (Handling.ends_checkOuter real).mpr holds.2

theorem ends_moveInside (among : Among kind others (inside wrap s) forms) (sound : handling.Sound kind bare)
    (realOther : handling.real (wrap (s.objs other)) = true)
    (alike : handling.real (wrap (s.objs self)) = true ->
      handling.alike (wrap (s.objs self)) (wrap (s.objs other)) = true) :
    Ends (handling.moveInside wrap (handling.moveAssign self other) self other) s fun _ later =>
      Among kind others (inside wrap later)
        (if self = other then forms else update (update forms self (forms other)) other bare) := by
  have rest : Ends (onInside wrap (handling.moveAssign self other)) s fun _ later =>
      Ends (handling.checkBoth wrap self other) later fun _ later => Among kind others (inside wrap later)
        (if self = other then forms else update (update forms self (forms other)) other bare) := by
    rw [ends_onInside]
    refine (among.ends_moveAssign_real sound realOther alike).mono ?_
    rintro _ later ⟨now, realNow, realLeft, _⟩
    have there : inside wrap (around wrap later) = later := inside_around later
    rw [← there] at now realNow realLeft
    simp only [Handling.checkBoth, ends_bind, ends_load]
    exact (Handling.ends_checkOuter realNow).mpr ((Handling.ends_checkOuter realLeft).mpr now)
  simp only [Handling.moveInside, ends_bind, ends_load, Handling.ends_checkOuter realOther]
  by_cases real : handling.real (wrap (s.objs self)) = true
  · simp only [if_pos real, Handling.checkAlike, ends_bind, Handling.ends_checkOuter real, ends_require,
      alike real, true_and]
    exact rest
  · simp only [if_neg real, ends_bind]
    exact rest

theorem ends_swapInside (among : Among kind others (inside wrap s) forms) (sound : handling.Sound kind bare)
    (realSelf : handling.real (wrap (s.objs self)) = true) (realOther : handling.real (wrap (s.objs other)) = true)
    (alike : handling.alike (wrap (s.objs self)) (wrap (s.objs other)) = true) :
    Ends (handling.swapInside wrap (handling.swap self other) self other) s fun _ later =>
      Among kind others (inside wrap later) fun var => forms (Equiv.swap self other var) := by
  simp only [Handling.swapInside, Handling.checkBoth, Handling.checkAlike, ends_bind, ends_load,
    Handling.ends_checkOuter realSelf, Handling.ends_checkOuter realOther, ends_require, alike, true_and,
    ends_onInside]
  refine (among.ends_swap_traded sound realSelf realOther alike).mono ?_
  rintro _ _ rfl
  rw [around_moved]
  have realOne : handling.real (wrap (s.objs (Equiv.swap self other self))) = true := by
    rw [Equiv.swap_apply_left]
    exact realOther
  have realTwo : handling.real (wrap (s.objs (Equiv.swap self other other))) = true := by
    rw [Equiv.swap_apply_right]
    exact realSelf
  exact (Handling.ends_checkOuter realOne).mpr ((Handling.ends_checkOuter realTwo).mpr (among.traded self other))

end Among

end Objects
end Foundation
end TerseDsa
