import TerseDsa.Foundation.Heap

namespace TerseDsa
namespace Foundation

open Run
open Function (update update_idem update_self update_of_ne)

/-!
# Objects over one memory

Operations on owning objects may be given one object twice, hand blocks from
one object to another, or write an object through an `out` pointer.  So that
this can be told, objects have identities here: they are numbered variables,
and beside them is the memory they share.

A `Kind` says which blocks an object of a given form owns and how the memory
holds them.  The invariant of a program is that every object is held and that
the live blocks are divided among the objects.  What one object does to its
own blocks, and a trade between two objects, keep it.
-/

/-- The variables of a program, and its memory. -/
structure Objects (Obj Tag Cell : Type) where
  objs : Nat -> Obj
  mem : Heap Tag Cell

namespace Objects

variable {Obj Form Tag Cell α : Type} {s : Objects Obj Tag Cell} {var : Nat}

/-- The object behind a pointer. -/
def load (var : Nat) : Run (Objects Obj Tag Cell) Obj := do
  let s ← get
  return s.objs var

/-- `*var = obj`. -/
def store (var : Nat) (obj : Obj) : Run (Objects Obj Tag Cell) Unit :=
  modify fun s => { s with objs := update s.objs var obj }

/-- Run on the memory alone. -/
def within (run : Run (Heap Tag Cell) α) : Run (Objects Obj Tag Cell) α := do
  let s ← get
  let (a, mem) ← demand (run s.mem)
  set { s with mem := mem }
  return a

@[simp] theorem ends_load {post : Obj -> Objects Obj Tag Cell -> Prop} :
    Ends (load var) s post <-> post (s.objs var) s := by
  simp only [load, ends_bind, Run.ends_get, ends_pure]

@[simp] theorem ends_store {obj : Obj} {post : Unit -> Objects Obj Tag Cell -> Prop} :
    Ends (store var obj) s post <->
      post () { s with objs := update s.objs var obj } :=
  ends_modify _ _ _

theorem ends_within {run : Run (Heap Tag Cell) α} {post : α -> Objects Obj Tag Cell -> Prop} :
    Ends (within run) s post <->
      Ends run s.mem (fun a mem => post a { s with mem := mem }) := by
  simp only [within, ends_bind, Run.ends_get]
  constructor
  · rintro ⟨⟨a, mem⟩, t, same, rest⟩
    cases result : run s.mem with
    | none =>
        rw [result] at same
        cases same
    | some pair =>
        rw [result] at same
        cases same
        simp only [Run.ends_set, ends_pure] at rest
        exact ⟨a, mem, result, rest⟩
  · rintro ⟨a, mem, result, holds⟩
    rw [result, ends_demand_some]
    simpa only [ends_bind, Run.ends_set, ends_pure] using holds

/-- A kind of objects: the blocks that an object of some form owns, and when
memory holds it in that form, which only those blocks decide. -/
structure Kind (Obj Form Tag Cell : Type) where
  owned : Obj -> Form -> List Addr
  Holds : Blocks Tag Cell -> Obj -> Form -> Prop
  live : forall {blocks : Blocks Tag Cell} {obj : Obj} {form : Form} {addr : Addr},
    Holds blocks obj form -> addr ∈ owned obj form -> blocks addr ≠ none
  congr : forall {blocks other : Blocks Tag Cell} {obj : Obj} {form : Form},
    Holds blocks obj form -> (forall addr, addr ∈ owned obj form -> other addr = blocks addr) ->
    Holds other obj form

theorem update_update_eq_swap {β : Type} (values : Nat -> β) (obj other : Nat) :
    update (update values obj (values other)) other (values obj) =
      fun var => values (Equiv.swap obj other var) := by
  funext var
  by_cases atOther : var = other
  · rw [atOther, update_self, Equiv.swap_apply_right]
  · rw [update_of_ne atOther]
    by_cases atObj : var = obj
    · rw [atObj, update_self, Equiv.swap_apply_left]
    · rw [update_of_ne atObj, Equiv.swap_apply_of_ne_of_ne atObj atOther]

/-- Every object is held, and the live blocks are divided among the objects. -/
structure Invariant (kind : Kind Obj Form Tag Cell) (s : Objects Obj Tag Cell)
    (forms : Nat -> Form) : Prop where
  held : forall var, kind.Holds s.mem.blocks (s.objs var) (forms var)
  division : Partition s.mem.blocks fun var => kind.owned (s.objs var) (forms var)

namespace Invariant

variable {kind : Kind Obj Form Tag Cell} {forms : Nat -> Form} {mem : Heap Tag Cell}
  {after : Obj} {form : Form}

/-- Objects that own nothing, in a memory where nothing is live. -/
theorem start (idle : Obj) (held : kind.Holds (fun _ => none) idle form)
    (nothing : kind.owned idle form = []) (answers : Nat -> Option Addr) :
    Invariant kind ⟨fun _ => idle, ⟨fun _ => none, answers, 0⟩⟩ fun _ => form := by
  constructor
  · exact fun _ => held
  · constructor
    · intro owner addr inside
      rw [nothing] at inside
      exact absurd inside List.not_mem_nil
    · exact fun _ live => absurd rfl live
    · intro owner other addr inside
      rw [nothing] at inside
      exact absurd inside List.not_mem_nil

theorem apart (invariant : Invariant kind s forms) {other : Nat} (different : other ≠ var)
    (addr : Addr) (mine : addr ∈ kind.owned (s.objs other) (forms other)) :
    addr ∉ kind.owned (s.objs var) (forms var) :=
  fun also => different (invariant.division.apart other var addr mine also)

/-- One object acts on its own blocks, and is held again. -/
theorem act (invariant : Invariant kind s forms)
    (evolves : Evolves s.mem.blocks mem.blocks (kind.owned (s.objs var) (forms var))
      (kind.owned after form)) (held : kind.Holds mem.blocks after form) :
    Invariant kind ⟨update s.objs var after, mem⟩ (update forms var form) := by
  constructor
  · intro other
    change kind.Holds mem.blocks (update s.objs var after other)
      (update forms var form other)
    by_cases same : other = var
    · subst other
      rw [update_self, update_self]
      exact held
    · rw [update_of_ne same, update_of_ne same]
      exact kind.congr (invariant.held other) fun addr mine =>
        invariant.division.untouched evolves same mine
  · have sameOwned : (fun other => kind.owned (update s.objs var after other)
        (update forms var form other)) =
        update (fun other => kind.owned (s.objs other) (forms other)) var
          (kind.owned after form) := by
      funext other
      by_cases same : other = var
      · subst other
        rw [update_self, update_self, update_self]
      · rw [update_of_ne same, update_of_ne same, update_of_ne same]
    change Partition mem.blocks (fun other => kind.owned (update s.objs var after other)
      (update forms var form other))
    rw [sameOwned]
    exact invariant.division.evolve evolves fun _ mine => kind.live held mine

/-- Two objects act on what they own together, and are held again. -/
theorem act_pair (invariant : Invariant kind s forms) {other : Nat} {afterOther : Obj} {formOther : Form}
    (different : var ≠ other)
    (evolves : Evolves s.mem.blocks mem.blocks
      (kind.owned (s.objs var) (forms var) ++ kind.owned (s.objs other) (forms other))
      (kind.owned after form ++ kind.owned afterOther formOther))
    (separate : (kind.owned after form).Disjoint (kind.owned afterOther formOther))
    (held : kind.Holds mem.blocks after form) (heldOther : kind.Holds mem.blocks afterOther formOther) :
    Invariant kind ⟨update (update s.objs var after) other afterOther, mem⟩
      (update (update forms var form) other formOther) := by
  have live : forall addr, addr ∈ kind.owned after form ++ kind.owned afterOther formOther -> mem.blocks addr ≠ none := by
    intro addr inside
    exact (List.mem_append.mp inside).elim (kind.live held) (kind.live heldOther)
  have sameOwned : (fun who => kind.owned (update (update s.objs var after) other afterOther who)
      (update (update forms var form) other formOther who)) =
      update (update (fun who => kind.owned (s.objs who) (forms who)) var (kind.owned after form)) other
        (kind.owned afterOther formOther) := by
    funext who
    by_cases second : who = other
    · subst second
      rw [update_self, update_self, update_self]
    · rw [update_of_ne second, update_of_ne second, update_of_ne second]
      by_cases first : who = var
      · subst first
        rw [update_self, update_self, update_self]
      · rw [update_of_ne first, update_of_ne first, update_of_ne first]
  constructor
  · intro who
    change kind.Holds mem.blocks (update (update s.objs var after) other afterOther who)
      (update (update forms var form) other formOther who)
    by_cases second : who = other
    · subst second
      rw [update_self, update_self]
      exact heldOther
    · rw [update_of_ne second, update_of_ne second]
      by_cases first : who = var
      · subst first
        rw [update_self, update_self]
        exact held
      · rw [update_of_ne first, update_of_ne first]
        apply kind.congr (invariant.held who)
        intro addr mine
        apply evolves.keeps _ (invariant.division.live who addr mine)
        intro also
        rcases List.mem_append.mp also with ofFirst | ofSecond
        · exact first (invariant.division.apart who var addr mine ofFirst)
        · exact second (invariant.division.apart who other addr mine ofSecond)
  · change Partition mem.blocks (fun who => kind.owned (update (update s.objs var after) other afterOther
      who) (update (update forms var form) other formOther who))
    rw [sameOwned]
    exact invariant.division.evolve_pair evolves live separate different

/-- Nothing but the memory's script moved on. -/
theorem same_blocks (invariant : Invariant kind s forms) (same : mem.blocks = s.mem.blocks) :
    Invariant kind { s with mem := mem } forms := by
  constructor
  · intro other
    exact kind.congr (invariant.held other) fun addr _ => congrFun same addr
  · exact same ▸ invariant.division

/-- A state of the same objects and the same blocks. -/
theorem unchanged {later : Objects Obj Tag Cell} (invariant : Invariant kind s forms)
    (sameObjs : later.objs = s.objs) (same : later.mem.blocks = s.mem.blocks) : Invariant kind later forms := by
  have stays : later = { s with mem := later.mem } := by
    rw [← sameObjs]
  rw [stays]
  exact invariant.same_blocks same

/-- Two objects trade all they are. -/
theorem traded (invariant : Invariant kind s forms) (obj other : Nat) :
    Invariant kind ⟨fun var => s.objs (Equiv.swap obj other var), s.mem⟩
      (fun var => forms (Equiv.swap obj other var)) :=
  ⟨fun _ => invariant.held _, invariant.division.reindex (Equiv.swap obj other)⟩

/-- An object that owns nothing is overwritten by another one that owns nothing. -/
theorem idle (invariant : Invariant kind s forms)
    (nothing : kind.owned (s.objs var) (forms var) = []) (held : kind.Holds s.mem.blocks after form)
    (still : kind.owned after form = []) :
    Invariant kind ⟨update s.objs var after, s.mem⟩ (update forms var form) := by
  apply invariant.act _ held
  rw [nothing, still]
  exact Evolves.refl _ _

/-- `*self = *other`, where `self` owned nothing, and `other` becomes an object
that owns nothing. -/
theorem moved (invariant : Invariant kind s forms) {self : Nat} (other : Nat)
    (nothing : kind.owned (s.objs self) (forms self) = []) (held : kind.Holds s.mem.blocks after form)
    (still : kind.owned after form = []) :
    Invariant kind
      ⟨update (update s.objs self (s.objs other)) other after, s.mem⟩
      (update (update forms self (forms other)) other form) := by
  have trade : forall {β : Type} (values : Nat -> β) (last : β),
      update (update values self (values other)) other last =
        update (fun var => values (Equiv.swap self other var)) other last := by
    intro β values last
    rw [← update_update_eq_swap, update_idem]
  rw [trade, trade]
  apply (invariant.traded self other).idle _ held still
  change kind.owned (s.objs (Equiv.swap self other other)) (forms (Equiv.swap self other other)) = []
  rw [Equiv.swap_apply_right]
  exact nothing

end Invariant

/-- The invariant holds in the later state, and only the objects listed may be
other objects, of other forms, than before. -/
def Leads (kind : Kind Obj Form Tag Cell) (s : Objects Obj Tag Cell) (forms : Nat -> Form)
    (touched : List Nat) (later : Objects Obj Tag Cell) : Prop :=
  exists changed : Nat -> Form, Invariant kind later changed ∧
    forall var, var ∉ touched -> later.objs var = s.objs var ∧ changed var = forms var

namespace Leads

variable {kind : Kind Obj Form Tag Cell} {forms : Nat -> Form} {mem : Heap Tag Cell}
  {after : Obj} {form : Form} {touched : List Nat}

theorem refl (invariant : Invariant kind s forms) : Leads kind s forms touched s :=
  ⟨forms, invariant, fun _ _ => ⟨rfl, rfl⟩⟩

theorem update (invariant : Invariant kind ⟨update s.objs var after, mem⟩
      (update forms var form)) (inside : var ∈ touched) :
    Leads kind s forms touched ⟨update s.objs var after, mem⟩ := by
  refine ⟨_, invariant, fun other outside => ?_⟩
  have different : other ≠ var := by
    rintro rfl
    exact outside inside
  exact ⟨update_of_ne different _ _, update_of_ne different _ _⟩

theorem same_blocks (invariant : Invariant kind s forms) (same : mem.blocks = s.mem.blocks) :
    Leads kind s forms touched { s with mem := mem } :=
  ⟨forms, invariant.same_blocks same, fun _ _ => ⟨rfl, rfl⟩⟩

theorem unchanged {later : Objects Obj Tag Cell} (invariant : Invariant kind s forms) (sameObjs : later.objs = s.objs)
    (same : later.mem.blocks = s.mem.blocks) : Leads kind s forms touched later :=
  ⟨forms, invariant.unchanged sameObjs same, fun var _ => ⟨congrFun sameObjs var, rfl⟩⟩

end Leads

end Objects
end Foundation
end TerseDsa
