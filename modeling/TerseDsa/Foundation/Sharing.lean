import TerseDsa.Foundation.Objects

namespace TerseDsa
namespace Foundation

open Function (update)

/-!
# Objects that share their memory

Not every block of a memory need be of objects of one kind.  `Among` is the
invariant of the objects of a kind while the blocks `others` are somebody
else's: without these the memory is that of the objects, and these stay what
they are.  What the objects do to their own blocks keeps it.
-/

namespace Objects

variable {Obj Form Tag Cell : Type} {blocks others : Blocks Tag Cell} {addr : Addr}

/-- The blocks that are not the others'. -/
def without (others blocks : Blocks Tag Cell) : Blocks Tag Cell := fun addr =>
  match others addr with
  | none => blocks addr
  | some _ => none

theorem without_of_none (free : others addr = none) : without others blocks addr = blocks addr := by
  simp only [without, free]

theorem without_of_ne (taken : others addr ≠ none) : without others blocks addr = none := by
  rcases Option.ne_none_iff_exists'.mp taken with ⟨block, there⟩
  simp only [without, there]

theorem without_none : without (fun _ => none) blocks = blocks := by
  funext addr
  exact without_of_none rfl

/-- The objects, with a memory that lacks the others' blocks. -/
def aside (others : Blocks Tag Cell) (s : Objects Obj Tag Cell) : Objects Obj Tag Cell :=
  ⟨s.objs, ⟨without others s.mem.blocks, s.mem.answers, s.mem.asked⟩⟩

/-- The objects of a kind, in a memory where some blocks are others'. -/
structure Among (kind : Kind Obj Form Tag Cell) (others : Blocks Tag Cell) (s : Objects Obj Tag Cell)
    (forms : Nat -> Form) : Prop where
  own : Invariant kind (aside others s) forms
  kept : forall addr, others addr ≠ none -> s.mem.blocks addr = others addr

namespace Among

variable {kind : Kind Obj Form Tag Cell} {s : Objects Obj Tag Cell} {forms : Nat -> Form} {mem : Heap Tag Cell}
  {var : Nat} {after : Obj} {form : Form}

theorem iff_invariant : Among kind (fun _ => none) s forms <-> Invariant kind s forms := by
  have same : aside (fun _ => none) s = s := by
    rw [aside, without_none]
  constructor
  · intro among
    have own := among.own
    rwa [same] at own
  · intro invariant
    refine ⟨?_, fun addr taken => absurd rfl taken⟩
    rwa [same]

/-- Objects that own nothing, in a memory where nothing is live. -/
theorem start (idle : Obj) (held : kind.Holds (fun _ => none) idle form) (nothing : kind.owned idle form = [])
    (answers : Nat -> Option Addr) :
    Among kind (fun _ => none) ⟨fun _ => idle, ⟨fun _ => none, answers, 0⟩⟩ fun _ => form :=
  iff_invariant.mpr (Invariant.start idle held nothing answers)

/-- What an object owns is nobody else's. -/
theorem free (among : Among kind others s forms) (mine : addr ∈ kind.owned (s.objs var) (forms var)) :
    others addr = none := by
  by_contra taken
  exact kind.live (among.own.held var) mine (without_of_ne taken)

theorem held (among : Among kind others s forms) (var : Nat) :
    kind.Holds s.mem.blocks (s.objs var) (forms var) :=
  kind.congr (among.own.held var) fun _ mine => (without_of_none (among.free mine)).symm

theorem apart (among : Among kind others s forms) {other : Nat} (different : other ≠ var) (addr : Addr)
    (mine : addr ∈ kind.owned (s.objs other) (forms other)) : addr ∉ kind.owned (s.objs var) (forms var) :=
  among.own.apart different addr mine

/-- What an object comes to own is nobody else's either. -/
theorem still_free (among : Among kind others s forms) {owned : List Addr}
    (evolves : Evolves s.mem.blocks mem.blocks (kind.owned (s.objs var) (forms var)) owned) (mine : addr ∈ owned) :
    others addr = none := by
  by_cases before : addr ∈ kind.owned (s.objs var) (forms var)
  · exact among.free before
  · by_contra taken
    exact taken ((among.kept addr taken).symm.trans (evolves.fresh addr mine before))

/-- One object acts on its own blocks, and is held again. -/
theorem act (among : Among kind others s forms)
    (evolves : Evolves s.mem.blocks mem.blocks (kind.owned (s.objs var) (forms var)) (kind.owned after form))
    (held : kind.Holds mem.blocks after form) :
    Among kind others ⟨update s.objs var after, mem⟩ (update forms var form) := by
  have inside : Evolves (without others s.mem.blocks) (without others mem.blocks)
      (kind.owned (s.objs var) (forms var)) (kind.owned after form) := by
    constructor
    · intro addr before later
      by_cases free : others addr = none
      · rw [without_of_none free, without_of_none free]
        exact evolves.outside addr before later
      · rw [without_of_ne free, without_of_ne free]
    · intro addr later before
      rw [without_of_none (among.still_free evolves later)]
      exact evolves.fresh addr later before
    · intro addr before later
      rw [without_of_none (among.free before)]
      exact evolves.released addr before later
  have heldInside : kind.Holds (without others mem.blocks) after form :=
    kind.congr held fun addr mine => without_of_none (among.still_free evolves mine)
  constructor
  · have acted : Invariant kind ⟨update (aside others s).objs var after,
        ⟨without others mem.blocks, mem.answers, mem.asked⟩⟩ (update forms var form) :=
      among.own.act inside heldInside
    exact acted
  · intro addr taken
    rw [← among.kept addr taken]
    apply evolves.outside
    · exact fun mine => taken (among.free mine)
    · exact fun mine => taken (among.still_free evolves mine)

/-- A state of the same objects and the same blocks. -/
theorem unchanged {later : Objects Obj Tag Cell} (among : Among kind others s forms) (sameObjs : later.objs = s.objs)
    (same : later.mem.blocks = s.mem.blocks) : Among kind others later forms := by
  constructor
  · have still : (aside others later).mem.blocks = (aside others s).mem.blocks := congrArg (without others) same
    exact among.own.unchanged sameObjs still
  · rw [same]
    exact among.kept

/-- Two objects trade all they are. -/
theorem traded (among : Among kind others s forms) (obj other : Nat) :
    Among kind others ⟨fun var => s.objs (Equiv.swap obj other var), s.mem⟩
      (fun var => forms (Equiv.swap obj other var)) :=
  ⟨among.own.traded obj other, among.kept⟩

/-- An object that owns nothing is overwritten by another one that owns nothing. -/
theorem idle (among : Among kind others s forms) (nothing : kind.owned (s.objs var) (forms var) = [])
    (held : kind.Holds s.mem.blocks after form) (still : kind.owned after form = []) :
    Among kind others ⟨update s.objs var after, s.mem⟩ (update forms var form) := by
  apply among.act _ held
  rw [nothing, still]
  exact Evolves.refl _ _

/-- `*self = *other`, where `self` owned nothing, and `other` becomes an object
that owns nothing. -/
theorem moved (among : Among kind others s forms) {self : Nat} (other : Nat)
    (nothing : kind.owned (s.objs self) (forms self) = []) (held : kind.Holds s.mem.blocks after form)
    (still : kind.owned after form = []) :
    Among kind others ⟨update (update s.objs self (s.objs other)) other after, s.mem⟩
      (update (update forms self (forms other)) other form) := by
  refine ⟨among.own.moved other nothing (kind.congr held ?_) still, among.kept⟩
  intro addr mine
  rw [still] at mine
  exact absurd mine List.not_mem_nil

end Among

end Objects
end Foundation
end TerseDsa
