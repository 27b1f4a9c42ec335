import TerseDsa.Foundation.Objects
import TerseDsa.List.Operations

namespace TerseDsa

open Foundation Run
open Function (update update_idem update_self update_of_ne update_eq_self)

/-!
# Lists as objects

Lists are numbered variables over one memory.  Calls on two lists hand nodes
from one to the other, on one allocator or across two; what such a call does
is told on sequences of nodes.
-/

variable {α C : Type}

/-- The list variables of a program, and its memory. -/
abbrev ListObjects (α : Type) := Objects TdaList AlTag (ListNode α)

namespace ListObjects

open Objects TdaList

/-- The checks an operation on two lists starts with. -/
def assertPair (self other : Nat) : Run (ListObjects α) (TdaList × TdaList) := do
  let a ← load self
  let b ← load other
  within (assertList a)
  within (assertList b)
  within (expectSame a b)
  return (a, b)

/-- `tda_list_copy_assign`. -/
def copyAssign (α : Type) (self other : Nat) : Run (ListObjects α) Status := do
  let (a, b) ← assertPair self other
  if self = other then
    return .ok
  let (st, after) ← within (copyOver α a b)
  store self after
  return st

/-- `tda_list_move_assign`. -/
def moveAssign (α : Type) (self other : Nat) : Run (ListObjects α) Unit := do
  let a ← load self
  let b ← load other
  within (assertList b)
  if a.al.isSome then
    within (assertList a)
    within (expectSame a b)
  if self = other then
    return ()
  store self (← within (deinit α a))
  store self b
  let empty ← within (init b.elem b.al)
  store other empty
  within (assertList b)
  within (assertList empty)

/-- `tda_list_swap`. -/
def swap (α : Type) (self other : Nat) : Run (ListObjects α) Unit := do
  let (a, b) ← assertPair self other
  if self = other then
    return ()
  store self b
  store other a
  within (assertList b)
  within (assertList a)

/-- `tda_list_splice_front` and `tda_list_splice_back`. -/
def splice (α : Type) (self src : Nat) (front : Bool) : Run (ListObjects α) Status := do
  let (a, b) ← assertPair self src
  require (self ≠ src)
  let (st, after, emptied) ← within (spliceImpl α a b front)
  store self after
  store src emptied
  return st

/-- `!at || owns_node(self, at)`. -/
def expectPlace (α : Type) (list : TdaList) : Option Addr -> Run (ListMem α) Unit
  | none => return ()
  | some at_ => do require ((← ownsNode α list at_) = true)

/-- `tda_list_splice_node`.  Both pointers may be to one list, so that each is read anew after a store. -/
def spliceNode (α : Type) (self : Nat) (at_ : Option Addr) (src : Nat) (node : Addr) : Run (ListObjects α) Status := do
  let a ← load self
  let b ← load src
  within (assertList a)
  within (assertList b)
  within (assertPos α at_)
  within (assertNode α node)
  within (expectSame a b)
  require (at_ ≠ some node)
  within (expectPlace α a at_)
  within (expectPlace α b (some node))
  if a.al ≠ b.al then
    let prev ← within (prevOf α a at_)
    let cell ← within (readNode (α := α) node)
    let (st, after) ← within (insertBetween a prev at_ cell.elem)
    store self after
    if st ≠ .ok then
      return st
    let b ← load src
    store src (← within (removeNodeImpl α b node))
    within (assertList (← load self))
    within (assertList (← load src))
    return .ok
  store src (← within (unlinkNode α b node))
  let a ← load self
  let prev ← within (prevOf α a at_)
  store self (← within (linkNode α a node prev at_))
  within (assertList (← load self))
  within (assertList (← load src))
  within (assertNode α node)
  return .ok

/-- `tda_list_merge`. -/
def merge (self src : Nat) (cmp : Cmp α C) (ctx : C) : Run (ListObjects α) (Status × C) := do
  let (a, b) ← assertPair self src
  require (self ≠ src)
  let (st, after, emptied, ctx) ← within (mergeImpl a b cmp ctx)
  store self after
  store src emptied
  return (st, ctx)

/-- Write a constructor's object to `out` if there is one. -/
def fill (out : Nat) (result : Status × Option TdaList) : Run (ListObjects α) Status := do
  match result with
  | (st, some list) =>
      store out list
      return st
  | (st, none) => return st

end ListObjects

namespace TdaList

open Objects ListObjects

variable {s later : ListObjects α} {abs : Nat -> List (Addr × α)}

/-! ## Calls -/

/-- The constructors that write to `out` only when they succeed. -/
inductive Maker (α : Type) where
  | fromData (data : List α) (elem : Layout) (al : Al)
  | fromSpan (src : SpanView α) (al : Al)
  | copy (self : Nat)
  | copyWith (self : Nat) (al : Al)

namespace Maker

/-- Build the object. -/
def make : Maker α -> Run (ListObjects α) (Status × Option TdaList)
  | fromData data elem al => within (TdaList.fromData data elem al)
  | fromSpan src al => within (TdaList.fromSpan src al)
  | copy self => do
      let list ← load self
      within (assertList list)
      within (TdaList.copyWith α list list.al)
  | copyWith self al => do
      let list ← load self
      within (TdaList.copyWith α list al)

/-- What the caller has to see to. -/
def Allowed (s : ListObjects α) : Maker α -> Prop
  | fromData _ elem al => Storable elem ∧ al.isSome = true
  | fromSpan src al => Storable src.elem ∧ al.isSome = true
  | copy self => (s.objs self).al.isSome = true
  | copyWith self al => (s.objs self).al.isSome = true ∧ al.isSome = true

/-- The elems of the object. -/
def contents (abs : Nat -> List (Addr × α)) : Maker α -> List α
  | fromData data _ _ => data
  | fromSpan src _ => src.elems
  | copy self | copyWith self _ => elems (abs self)

end Maker

/-- A call of a public operation of lists, with its arguments. -/
inductive Call (α C : Type) where
  | init (out : Nat) (elem : Layout) (al : Al)
  | make (out : Nat) (maker : Maker α)
  | deinit (self : Nat)
  | copyAssign (self other : Nat)
  | moveAssign (self other : Nat)
  | swap (self other : Nat)
  | splice (self src : Nat) (front : Bool)
  | spliceNode (self : Nat) (at_ : Option Addr) (src : Nat) (node : Addr)
  | merge (self src : Nat) (cmp : Cmp α C) (ctx : C)
  | op (self : Nat) (task : Op α C)

namespace Call

/-- Make the call; functions without a status succeed. -/
def run : Call α C -> Run (ListObjects α) (Status × Handed α C)
  | init out elem al => do
      store out (← within (TdaList.init elem al))
      return (.ok, .nothing)
  | make out maker => do
      let st ← fill out (← maker.make)
      return (st, .nothing)
  | deinit self => do
      store self (← within (TdaList.deinit α (← load self)))
      return (.ok, .nothing)
  | copyAssign self other => do
      let st ← ListObjects.copyAssign α self other
      return (st, .nothing)
  | moveAssign self other => do
      ListObjects.moveAssign α self other
      return (.ok, .nothing)
  | swap self other => do
      ListObjects.swap α self other
      return (.ok, .nothing)
  | splice self src front => do
      let st ← ListObjects.splice α self src front
      return (st, .nothing)
  | spliceNode self at_ src node => do
      let st ← ListObjects.spliceNode α self at_ src node
      return (st, .nothing)
  | merge self src cmp ctx => do
      let (st, ctx) ← ListObjects.merge self src cmp ctx
      return (st, .ctx ctx)
  | op self task => do
      let (st, handed, after) ← within (task.run (← load self))
      store self after
      return (st, handed)

/-- Two lists of one elem layout. -/
def Alike (s : ListObjects α) (self other : Nat) : Prop := (s.objs self).elem = (s.objs other).elem

/-- What the caller has to see to: `self`, `other` and `src` are initialised and of one layout, a node that is
given is one of the list it is said to be in, and `out` is a variable that owns no nodes, since it is
overwritten. -/
def Allowed (s : ListObjects α) : Call α C -> Prop
  | init out elem al => (s.objs out).head = none ∧ Storable elem ∧ al.isSome = true
  | make out maker => (s.objs out).head = none ∧ maker.Allowed s
  | deinit _ => True
  | copyAssign self other | swap self other =>
      (s.objs self).al.isSome = true ∧ (s.objs other).al.isSome = true ∧ Alike s self other
  | moveAssign self other =>
      (s.objs other).al.isSome = true ∧ ((s.objs self).al.isSome = true -> Alike s self other)
  | splice self src _ | merge self src _ _ =>
      (s.objs self).al.isSome = true ∧ (s.objs src).al.isSome = true ∧ Alike s self src ∧ self ≠ src
  | spliceNode self at_ src node =>
      (s.objs self).al.isSome = true ∧ (s.objs src).al.isSome = true ∧ Alike s self src ∧ at_ ≠ some node ∧
        (forall addr, at_ = some addr -> Owns s.mem (s.objs self) addr) ∧ Owns s.mem (s.objs src) node
  | op self task => (s.objs self).al.isSome = true ∧ task.Allowed s.mem (s.objs self)

/-- Whether nodes can go from the one list to the other as they are. -/
def relinks (s : ListObjects α) : Call α C -> Bool
  | splice self src _ | spliceNode self _ src _ | merge self src _ _ => (s.objs self).al = (s.objs src).al
  | _ => true

/-- The nodes that come into a list: those of the other list themselves, or made with their elems. -/
def carried (relink : Bool) (made : List Addr) (nodes : List (Addr × α)) : List (Addr × α) :=
  if relink then nodes else made.zip (elems nodes)

/-- How many nodes it makes. -/
def makes (relink : Bool) (abs : Nat -> List (Addr × α)) : Call α C -> Nat
  | make _ maker => (maker.contents abs).length
  | copyAssign self other => (abs other).length - (abs self).length
  | splice _ src _ | merge _ src _ _ => if relink then 0 else (abs src).length
  | spliceNode .. => if relink then 0 else 1
  | op _ task => task.makes
  | _ => 0

/-- The same call on sequences of nodes, where those that are made have the identities `made`. -/
def apply (relink : Bool) (made : List Addr) (abs : Nat -> List (Addr × α)) : Call α C -> Nat -> List (Addr × α)
  | init out _ _ => update abs out []
  | make out maker => update abs out (made.zip (maker.contents abs))
  | deinit self => update abs self []
  | copyAssign self other =>
      if self = other then abs
      else update abs self ((addrs ((abs self).take (abs other).length) ++ made).zip (elems (abs other)))
  | moveAssign self other =>
      if self = other then abs
      else update (update abs self (abs other)) other []
  | swap self other => fun var => abs (Equiv.swap self other var)
  | splice self src front =>
      update (update abs self (joined front (carried relink made (abs src)) (abs self))) src []
  | spliceNode self at_ src node =>
      let without := update abs src (dropNode node (abs src))
      update without self (putBefore at_ (carried relink made (onlyNode node (abs src))) (without self))
  | merge self src cmp ctx =>
      update (update abs self (mergeBy (byElem cmp) (abs self) (carried relink made (abs src)) ctx).1)
        src []
  | op self task => update abs self (task.apply made (abs self))

/-- What the call hands out, on sequences of nodes. -/
def answer (relink : Bool) (made : List Addr) (abs : Nat -> List (Addr × α)) : Call α C -> Handed α C
  | merge self src cmp ctx => .ctx (mergeBy (byElem cmp) (abs self) (carried relink made (abs src)) ctx).2
  | op self task => task.answer (abs self)
  | _ => .nothing

end Call

/-! ## The invariant -/

/-- A list over its nodes, or an inert one. -/
def Kept (blocks : Blocks AlTag (ListNode α)) (list : TdaList) (nodes : List (Addr × α)) : Prop :=
  (list = inert ∧ nodes = []) ∨ Holds blocks list nodes

/-- Lists own their nodes. -/
@[reducible] def kind : Kind TdaList (List (Addr × α)) AlTag (ListNode α) where
  owned _ nodes := addrs nodes
  Holds := Kept
  live := by
    intro blocks list nodes addr kept mine
    rcases kept with ⟨_, rfl⟩ | holds
    · exact absurd mine List.not_mem_nil
    · have inHeap : Holds (⟨blocks, fun _ => none, 0⟩ : ListMem α).blocks list nodes := holds
      exact inHeap.live mine
  congr := by
    intro blocks other list nodes kept agree
    rcases kept with idle | holds
    · exact Or.inl idle
    · have inHeap : Holds (⟨blocks, fun _ => none, 0⟩ : ListMem α).blocks list nodes := holds
      exact Or.inr (inHeap.congr agree)

/-- The sequences are those of the lists, and the live blocks are their nodes. -/
abbrev Invariant (s : ListObjects α) (abs : Nat -> List (Addr × α)) : Prop := Objects.Invariant kind s abs

namespace Invariant

variable {self other out : Nat} {nodes changed rest made : List (Addr × α)} {mem : ListMem α}

theorem holds (invariant : Invariant s abs) (real : (s.objs self).al.isSome = true) :
    Holds s.mem.blocks (s.objs self) (abs self) := by
  rcases invariant.held self with ⟨idle, _⟩ | holds
  · rw [idle] at real
    cases real
  · exact holds

theorem bare (invariant : Invariant s abs) (none_ : (s.objs out).head = none) : abs out = [] := by
  rcases invariant.held out with ⟨_, empty⟩ | holds
  · exact empty
  · have head := holds.linked.head_eq
    rw [none_] at head
    exact List.map_eq_nil_iff.mp (List.head?_eq_none_iff.mp head.symm)

theorem apart (invariant : Invariant s abs) (different : self ≠ other) :
    (addrs (abs self)).Disjoint (addrs (abs other)) :=
  fun addr inside also => Objects.Invariant.apart invariant different addr inside also

theorem tended {after : TdaList} (invariant : Invariant s abs)
    (tends : Tends s.mem.blocks mem.blocks (s.objs self) after (abs self) changed) :
    Invariant ⟨update s.objs self after, mem⟩ (update abs self changed) :=
  Objects.Invariant.act invariant tends.evolves (Or.inr tends.holds)

theorem joint {after afterOther : TdaList} (invariant : Invariant s abs) (different : self ≠ other)
    (joint : Joint s.mem.blocks mem.blocks (s.objs self) (s.objs other) after afterOther (abs self) (abs other) changed
      rest) :
    Invariant ⟨update (update s.objs self after) other afterOther, mem⟩
      (update (update abs self changed) other rest) :=
  Objects.Invariant.act_pair invariant different joint.evolves joint.apart (Or.inr joint.holds) (Or.inr joint.holdsSrc)

/-- A variable that owned nothing is overwritten by a list that was built. -/
theorem born {list : TdaList} {elem : Layout} {al : Al} (invariant : Invariant s abs)
    (bare : (s.objs out).head = none) (born : Born s.mem.blocks mem.blocks list nodes elem al) :
    Invariant ⟨update s.objs out list, mem⟩ (update abs out nodes) := by
  apply Objects.Invariant.act invariant _ (Or.inr born.holds)
  have evolves := born.evolves
  change Evolves _ _ (addrs (abs out)) _
  rw [invariant.bare bare]
  exact evolves

/-- Any variable, initialised or not, is deinitialised. -/
theorem deinitialised (invariant : Invariant s abs) (self : Nat) {post : TdaList -> ListMem α -> Prop}
    (done : forall later : ListMem α,
      Invariant ⟨update s.objs self inert, later⟩ (update abs self []) -> post inert later) :
    Ends (deinit α (s.objs self)) s.mem post := by
  rcases invariant.held self with ⟨idle, none_⟩ | holds
  · rw [idle, ends_deinit_inert]
    apply done s.mem
    apply Objects.Invariant.idle invariant
    · change addrs (abs self) = []
      rw [none_]
      rfl
    · exact Or.inl ⟨rfl, rfl⟩
    · rfl
  · apply ends_deinit holds
    intro later gone
    exact done later (Objects.Invariant.act invariant gone (Or.inl ⟨rfl, rfl⟩))

theorem ends_assertPair (invariant : Invariant s abs) (realSelf : (s.objs self).al.isSome = true)
    (realOther : (s.objs other).al.isSome = true) (alike : Call.Alike s self other)
    {post : TdaList × TdaList -> ListObjects α -> Prop} :
    Ends (assertPair self other) s post <-> post (s.objs self, s.objs other) s := by
  have same : (s.objs self).elem = (s.objs other).elem := alike
  simp only [assertPair, ends_bind, ends_load, ends_within, ends_assertList (invariant.holds realSelf).asserts,
    ends_assertList (invariant.holds realOther).asserts, expectSame, ends_require, same, true_and, ends_pure]

end Invariant

namespace Call

/-- The call did what it does on sequences, with fresh nodes for those that it makes, or was refused one of
them and did nothing. -/
def Done (s : ListObjects α) (abs : Nat -> List (Addr × α)) (call : Call α C) (result : Status × Handed α C)
    (later : ListObjects α) : Prop :=
  (exists made, Fresh s.mem made ∧ made.length = call.makes (call.relinks s) abs ∧
    result = (.ok, call.answer (call.relinks s) made abs) ∧
      Invariant later (call.apply (call.relinks s) made abs)) ∨
  (¬ s.mem.Supplies (call.makes (call.relinks s) abs) ∧ result.1 = .errNoMem ∧ later.objs = s.objs ∧
    later.mem.blocks = s.mem.blocks)

end Call

namespace Invariant

variable {self other out src : Nat} {nodes changed rest : List (Addr × α)} {mem : ListMem α}

/-! ### The calls -/

theorem quiet {call : Call α C} (none_ : call.makes (call.relinks s) abs = 0)
    (silent : call.answer (call.relinks s) [] abs = .nothing)
    (invariant : Invariant later (call.apply (call.relinks s) [] abs)) : call.Done s abs (.ok, .nothing) later :=
  Or.inl ⟨[], fun _ inside => absurd inside List.not_mem_nil, none_.symm, by rw [silent], invariant⟩

/-- Nodes that were made were not there before. -/
theorem fresh {before after : List Addr} {made : List (Addr × α)} (evolves : Evolves s.mem.blocks mem.blocks before after)
    (inside : forall addr, addr ∈ addrs made -> addr ∈ after ∧ addr ∉ before) : Fresh s.mem (addrs made) :=
  fun addr member => evolves.fresh addr (inside addr member).1 (inside addr member).2

/-- A constructor builds a list of the elems it should have, or is refused a node and leaves no trace. -/
theorem made (invariant : Invariant s abs) (maker : Maker α) (allowed : maker.Allowed s) :
    Ends maker.make s (fun result later => later.objs = s.objs ∧
      ((exists list nodes elem al, result = (.ok, some list) ∧ elems nodes = maker.contents abs ∧
          Born s.mem.blocks later.mem.blocks list nodes elem al) ∨
        (¬ s.mem.Supplies (maker.contents abs).length ∧ result = (.errNoMem, none) ∧
          later.mem.blocks = s.mem.blocks))) := by
  cases maker with
  | fromData data elem al =>
      simp only [Maker.make, ends_within, true_and]
      apply ends_fromData allowed.1 allowed.2
      · exact fun denied later same => Or.inr ⟨denied, rfl, same⟩
      · exact fun list later nodes same born => Or.inl ⟨list, nodes, elem, al, rfl, same, born⟩
  | fromSpan src al =>
      simp only [Maker.make, fromSpan, ends_within, true_and]
      apply ends_fromData allowed.1 allowed.2
      · exact fun denied later same => Or.inr ⟨denied, rfl, same⟩
      · exact fun list later nodes same born => Or.inl ⟨list, nodes, src.elem, al, rfl, same, born⟩
  | copy self =>
      have holds := invariant.holds allowed
      simp only [Maker.make, ends_bind, ends_load, ends_within, true_and, ends_assertList holds.asserts]
      apply ends_copyWith holds allowed
      · exact fun denied later same => Or.inr ⟨by rwa [Maker.contents, elems, List.length_map], rfl, same⟩
      · exact fun list later nodes same born => Or.inl ⟨list, nodes, _, _, rfl, same, born⟩
  | copyWith self al =>
      have holds := invariant.holds allowed.1
      simp only [Maker.make, ends_bind, ends_load, ends_within, true_and]
      apply ends_copyWith holds allowed.2
      · exact fun denied later same => Or.inr ⟨by rwa [Maker.contents, elems, List.length_map], rfl, same⟩
      · exact fun list later nodes same born => Or.inl ⟨list, nodes, _, al, rfl, same, born⟩

theorem ends_make (invariant : Invariant s abs) (out : Nat) (maker : Maker α) (bare : (s.objs out).head = none)
    (allowed : maker.Allowed s) :
    Ends (Call.make out maker : Call α C).run s ((Call.make out maker).Done s abs) := by
  simp only [Call.run, ends_bind]
  apply (invariant.made maker allowed).mono
  intro result mid built
  rcases built with ⟨sameObjs, ⟨list, nodes, elem, al, rfl, same, born⟩ | ⟨denied, rfl, same⟩⟩
  · simp only [fill, ends_bind, ends_store, ends_pure, sameObjs]
    have zipped : (addrs nodes).zip (maker.contents abs) = nodes := (List.zip_of_prod rfl same).symm
    have length : (addrs nodes).length = (maker.contents abs).length := by
      rw [← same, addrs, elems, List.length_map, List.length_map]
    refine Or.inl ⟨addrs nodes, ?_, length, rfl, ?_⟩
    · exact fresh born.evolves fun addr inside => ⟨inside, List.not_mem_nil⟩
    · rw [Call.apply, zipped]
      exact invariant.born bare born
  · simp only [fill, ends_pure]
    exact Or.inr ⟨denied, rfl, sameObjs, same⟩

/-- The nodes of a list that another one was copied over: its own as far as they go, then those that were made. -/
theorem copied_zip {nodes others changed : List (Addr × α)} (sameElems : elems changed = elems others)
    (kept : addrs (nodes.take others.length) <+: addrs changed) (distinct : (addrs changed).Nodup) :
    exists made : List Addr, made.length = others.length - nodes.length ∧
      (addrs (nodes.take others.length) ++ made).zip (elems others) = changed ∧
      forall addr, addr ∈ made -> addr ∈ addrs changed ∧ addr ∉ addrs nodes := by
  rcases kept with ⟨made, split⟩
  have length : min others.length nodes.length + made.length = others.length := by
    have few := congrArg List.length split
    have many := congrArg List.length sameElems
    rw [List.length_append, addrs, addrs, List.length_map, List.length_map, List.length_take] at few
    rw [elems, elems, List.length_map, List.length_map] at many
    omega
  refine ⟨made, by omega, ?_, ?_⟩
  · rw [split]
    exact (List.zip_of_prod rfl sameElems).symm
  · intro addr inside
    have positive := List.length_pos_of_mem inside
    rw [List.take_of_length_le (by omega)] at split
    rw [← split] at distinct ⊢
    exact ⟨List.mem_append_right _ inside, fun also => (List.nodup_append'.mp distinct).2.2 also inside⟩

theorem ends_copyAssign (invariant : Invariant s abs) (self other : Nat)
    (allowed : (Call.copyAssign self other : Call α C).Allowed s) :
    Ends (Call.copyAssign self other : Call α C).run s ((Call.copyAssign self other).Done s abs) := by
  rcases allowed with ⟨realSelf, realOther, alike⟩
  simp only [Call.run, ends_bind, ListObjects.copyAssign, invariant.ends_assertPair realSelf realOther alike]
  by_cases same : self = other
  · subst same
    simp only [if_true, ends_pure]
    apply quiet _ rfl
    · rw [Call.apply, if_pos rfl]
      exact invariant
    · exact Nat.sub_self _
  · simp only [if_neg same, ends_bind, ends_within, ends_store, ends_pure]
    apply ends_copyOver (invariant.holds realSelf) (invariant.holds realOther) (invariant.apart same)
    · exact fun denied later still => Or.inr ⟨denied, rfl, update_eq_self _ _, still⟩
    · intro after later changed sameElems kept tends
      rcases copied_zip sameElems kept tends.holds.nodup with ⟨made, length, zipped, new⟩
      refine Or.inl ⟨made, ?_, length, rfl, ?_⟩
      · exact fun addr inside => tends.evolves.fresh addr (new addr inside).1 (new addr inside).2
      · rw [Call.apply, if_neg same, zipped]
        exact invariant.tended tends

theorem ends_moveAssign (invariant : Invariant s abs) (self other : Nat)
    (allowed : (Call.moveAssign self other : Call α C).Allowed s) :
    Ends (Call.moveAssign self other : Call α C).run s ((Call.moveAssign self other).Done s abs) := by
  rcases allowed with ⟨realOther, alike⟩
  have holdsOther := invariant.holds realOther
  have rest : Ends (if self = other then return () else do
      store self (← within (deinit α (s.objs self)))
      store self (s.objs other)
      let empty ← within (init (s.objs other).elem (s.objs other).al)
      store other empty
      within (assertList (s.objs other))
      within (assertList empty)) s (fun _ later => Invariant later (if self = other then abs
        else update (update abs self (abs other)) other [])) := by
    by_cases same : self = other
    · rw [if_pos same, if_pos same, ends_pure]
      exact invariant
    · have different : other ≠ self := Ne.symm same
      simp only [if_neg same, ends_bind, ends_within]
      apply invariant.deinitialised self
      intro later cleared
      have empty : Holds later.blocks ⟨none, none, 0, (s.objs other).elem, (s.objs other).al⟩ ([] : List (Addr × α)) :=
        Holds.empty holdsOther.real holdsOther.elem holdsOther.layout rfl rfl rfl
      have nothing : kind.owned (update s.objs self inert self)
          (update abs self ([] : List (Addr × α)) self) = [] := by
        rw [update_self, update_self]
        rfl
      have final := Objects.Invariant.moved cleared other nothing (Or.inr empty) rfl
      simp only [update_idem, update_of_ne different] at final
      simp only [ends_store, update_idem, ends_init holdsOther.storable realOther,
        ends_assertList holdsOther.asserts, ends_assertList empty.asserts]
      exact final
  have whole : Ends (ListObjects.moveAssign α self other) s (fun _ later => Invariant later (if self = other then abs
      else update (update abs self (abs other)) other [])) := by
    simp only [ListObjects.moveAssign, ends_bind, ends_load, ends_within, ends_assertList holdsOther.asserts]
    by_cases real : (s.objs self).al.isSome = true
    · have same : (s.objs self).elem = (s.objs other).elem := alike real
      simp only [if_pos real, ends_bind, ends_within, ends_assertList (invariant.holds real).asserts, expectSame,
        ends_require, same, true_and]
      exact rest
    · rw [if_neg real]
      exact rest
  simp only [Call.run, ends_bind, ends_pure]
  exact whole.mono fun _ later now => quiet rfl rfl now

theorem ends_swap (invariant : Invariant s abs) (self other : Nat)
    (allowed : (Call.swap self other : Call α C).Allowed s) :
    Ends (Call.swap self other : Call α C).run s ((Call.swap self other).Done s abs) := by
  rcases allowed with ⟨realSelf, realOther, alike⟩
  simp only [Call.run, ends_bind, ListObjects.swap, invariant.ends_assertPair realSelf realOther alike]
  by_cases same : self = other
  · subst same
    simp only [if_true, ends_pure]
    apply quiet rfl rfl
    have still : (Call.swap self self : Call α C).apply ((Call.swap self self : Call α C).relinks s) [] abs = abs := by
      funext var
      change abs (Equiv.swap self self var) = abs var
      rw [Equiv.swap_self, Equiv.refl_apply]
    rw [still]
    exact invariant
  · have traded := Objects.Invariant.traded invariant self other
    rw [← update_update_eq_swap s.objs] at traded
    simp only [if_neg same, ends_bind, ends_store, ends_within, ends_pure,
      ends_assertList (invariant.holds realSelf).asserts, ends_assertList (invariant.holds realOther).asserts]
    exact quiet rfl rfl traded

/-! ### Calls that carry nodes -/

/-- What was carried over, on one allocator or across two. -/
theorem carried_eq {moved others : List (Addr × α)} (relink : Bool) (sameElems : elems moved = elems others)
    (relinked : relink = true -> moved = others) (fresh : relink = false -> Fresh s.mem (addrs moved)) :
    exists made : List Addr, Fresh s.mem made ∧ made.length = (if relink then 0 else others.length) ∧
      Call.carried relink made others = moved := by
  cases relink with
  | true => exact ⟨[], fun _ inside => absurd inside List.not_mem_nil, rfl, (relinked rfl).symm⟩
  | false =>
      refine ⟨addrs moved, fresh rfl, ?_, (List.zip_of_prod rfl sameElems).symm⟩
      have length := congrArg List.length sameElems
      rw [elems, elems, List.length_map, List.length_map] at length
      rw [addrs, List.length_map]
      exact length

theorem ends_splice (invariant : Invariant s abs) (self src : Nat) (front : Bool)
    (allowed : (Call.splice self src front : Call α C).Allowed s) :
    Ends (Call.splice self src front : Call α C).run s ((Call.splice self src front).Done s abs) := by
  rcases allowed with ⟨realSelf, realSrc, alike, different⟩
  simp only [Call.run, ends_bind, ListObjects.splice, invariant.ends_assertPair realSelf realSrc alike,
    ends_require, ends_within, ends_store, ends_pure]
  refine ⟨different, ?_⟩
  apply ends_spliceImpl (invariant.holds realSelf) (invariant.holds realSrc) alike (invariant.apart different)
  · intro two denied later same
    have across : (Call.splice self src front : Call α C).relinks s = false := decide_eq_false two
    rw [update_eq_self, update_eq_self]
    exact Or.inr ⟨by rwa [across], rfl, rfl, same⟩
  · intro after emptied later moved sameElems relinked fresh joint
    rcases carried_eq (s := s) ((Call.splice self src front : Call α C).relinks s) sameElems
      (fun one => relinked (of_decide_eq_true one)) (fun two => fresh (of_decide_eq_false two)) with
      ⟨made, new, length, carried⟩
    refine Or.inl ⟨made, new, length, rfl, ?_⟩
    rw [Call.apply, carried]
    exact invariant.joint different joint

theorem ends_merge (invariant : Invariant s abs) (self src : Nat) (cmp : Cmp α C) (ctx : C)
    (allowed : (Call.merge self src cmp ctx).Allowed s) :
    Ends (Call.merge self src cmp ctx).run s ((Call.merge self src cmp ctx).Done s abs) := by
  rcases allowed with ⟨realSelf, realSrc, alike, different⟩
  simp only [Call.run, ends_bind, ListObjects.merge, invariant.ends_assertPair realSelf realSrc alike,
    ends_require, ends_within, ends_store, ends_pure]
  refine ⟨different, ?_⟩
  apply ends_mergeImpl (invariant.holds realSelf) (invariant.holds realSrc) alike (invariant.apart different)
  · intro two denied later same
    have across : (Call.merge self src cmp ctx).relinks s = false := decide_eq_false two
    rw [update_eq_self, update_eq_self]
    exact Or.inr ⟨by rwa [across], rfl, rfl, same⟩
  · intro after emptied later moved sameElems relinked fresh joint
    rcases carried_eq (s := s) ((Call.merge self src cmp ctx).relinks s) sameElems
      (fun one => relinked (of_decide_eq_true one)) (fun two => fresh (of_decide_eq_false two)) with
      ⟨made, new, length, carried⟩
    refine Or.inl ⟨made, new, length, ?_, ?_⟩
    · rw [Call.answer, carried]
    · rw [Call.apply, carried]
      exact invariant.joint different joint

end Invariant

/-- A state that a program of calls comes to, over an arbitrary script of the allocators. -/
inductive Reachable (C : Type) : ListObjects α -> Prop where
  | start (answers : Nat -> Option Addr) : Reachable C ⟨fun _ => inert, ⟨fun _ => none, answers, 0⟩⟩
  | call {s later : ListObjects α} {result : Status × Handed α C} (before : Reachable C s) (call : Call α C)
      (allowed : call.Allowed s) (ran : call.run s = some (result, later)) : Reachable C later

end TdaList
end TerseDsa
