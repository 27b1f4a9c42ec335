import TerseDsa.Foundation.Wrapping
import TerseDsa.Alloc.Growth
import TerseDsa.Core.Spans

namespace TerseDsa

open Foundation Run Foundation.Objects
open Function (update update_eq_self)

/-!
# Adaptors

A stack and a queue are other containers under fewer names.  How they are made,
copied, given away and brought to an end is the same for both, and so is what
becomes of the lists they stand for.  They differ in the operations on one
object, and in the order in which the container inside has the list.
-/

/-- The functions of an adaptor, and what they do to a list. -/
structure Adaptor (α T Inner Op : Type) where
  wrap : T ≃ Inner
  al : T -> Al
  elem : T -> Layout
  data : T -> Option Addr
  inert : T
  init : Layout -> Al -> Run (SpanMem α) T
  initCap : Nat -> Layout -> Al -> Run (SpanMem α) (Status × Option T)
  fromData : List α -> Layout -> Al -> Run (SpanMem α) (Status × Option T)
  fromSpan : SpanView α -> Al -> Run (SpanMem α) (Status × Option T)
  copy : T -> Run (SpanMem α) (Status × Option T)
  copyWith : T -> Al -> Run (SpanMem α) (Status × Option T)
  deinit : T -> Run (SpanMem α) T
  into : T -> Run (SpanMem α) (Inner × T)
  copyAssign : Nat -> Nat -> Run (Objects T AlTag (List (Option α))) Status
  moveAssign : Nat -> Nat -> Run (Objects T AlTag (List (Option α))) Unit
  swap : Nat -> Nat -> Run (Objects T AlTag (List (Option α))) Unit
  run : Op -> T -> Run (SpanMem α) (Status × Option α × T)
  /-- What the caller of an operation has to see to. -/
  Allowed : T -> Op -> Prop
  /-- The container inside as its growth sees it, and how many elems an operation asks room for. -/
  grower : Grower (List (Option α)) Inner
  required : T -> Op -> Option Nat
  /-- The list as the container inside has it, and back. -/
  order : List α -> List α
  apply : List α -> Op -> List α
  answer : List α -> Op -> Option α

namespace Adaptor

/-- The variables of a program, and its memory. -/
abbrev Vars (α T : Type) := Objects T AlTag (List (Option α))

/-- The constructors that write to `out` only when they succeed. -/
inductive Maker (α : Type) where
  | initCap (cap : Nat) (elem : Layout) (al : Al)
  | fromData (data : List α) (elem : Layout) (al : Al)
  | fromSpan (src : SpanView α) (al : Al)
  | copy (self : Nat)
  | copyWith (self : Nat) (al : Al)

/-- A call of a public function of an adaptor, with its arguments. -/
inductive Call (α Op : Type) where
  | init (out : Nat) (elem : Layout) (al : Al)
  | make (out : Nat) (maker : Maker α)
  | deinit (self : Nat)
  | copyAssign (self other : Nat)
  | moveAssign (self other : Nat)
  | swap (self other : Nat)
  | op (self : Nat) (task : Op)

variable {α T Inner Op : Type} (A : Adaptor α T Inner Op)

/-- The object is initialised. -/
abbrev Real (obj : T) : Prop := (A.al obj).isSome = true

namespace Maker

/-- Build the object. -/
def make : Maker α -> Run (Vars α T) (Status × Option T)
  | initCap cap elem al => within (A.initCap cap elem al)
  | fromData data elem al => within (A.fromData data elem al)
  | fromSpan src al => within (A.fromSpan src al)
  | copy self => do
      let obj ← load self
      within (A.copy obj)
  | copyWith self al => do
      let obj ← load self
      within (A.copyWith obj al)

/-- What the caller has to see to. -/
def Allowed (s : Vars α T) : Maker α -> Prop
  | initCap _ elem al | fromData _ elem al => elem.isType = true ∧ al.isSome = true
  | fromSpan src al => src.elem.isType = true ∧ al.isSome = true
  | copy self => A.Real (s.objs self)
  | copyWith self al => A.Real (s.objs self) ∧ al.isSome = true

/-- The layout and the number of the elems that the first block is for, and where it is asked for. -/
def elem (s : Vars α T) : Maker α -> Layout
  | initCap _ elem _ | fromData _ elem _ => elem
  | fromSpan src _ => src.elem
  | copy self | copyWith self _ => A.elem (s.objs self)

def count (s : Vars α T) : Maker α -> Nat
  | initCap cap .. => cap
  | fromData data .. => data.length
  | fromSpan src _ => src.elems.length
  | copy self | copyWith self _ => A.grower.len (A.wrap (s.objs self))

def source (s : Vars α T) : Maker α -> Al
  | initCap _ _ al | fromData _ _ al | fromSpan _ al | copyWith _ al => al
  | copy self => A.al (s.objs self)

/-- The first block is not to be had. -/
def Refused (maker : Maker α) (s later : Vars α T) : Prop :=
  Refusal (firstRequest α (maker.elem A s) (maker.source A s)) (maker.elem A s).size (maker.count A s) s.mem later.mem

/-- The list that the object stands for. -/
def contents (abs : Nat -> List α) : Maker α -> List α
  | initCap .. => []
  | fromData data _ _ => A.order data
  | fromSpan src _ => A.order src.elems
  | copy self | copyWith self _ => abs self

end Maker

/-- Write a constructor's object to `out` if there is one. -/
def fill (out : Nat) (result : Status × Option T) : Run (Vars α T) Status := do
  match result with
  | (st, some obj) =>
      store out obj
      return st
  | (st, none) => return st

namespace Call

/-- Make the call; functions without a status succeed. -/
def run : Call α Op -> Run (Vars α T) (Status × Option α)
  | init out elem al => do
      store out (← within (A.init elem al))
      return (.ok, none)
  | make out maker => do
      let st ← fill out (← maker.make A)
      return (st, none)
  | deinit self => do
      store self (← within (A.deinit (← load self)))
      return (.ok, none)
  | copyAssign self other => do
      let st ← A.copyAssign self other
      return (st, none)
  | moveAssign self other => do
      A.moveAssign self other
      return (.ok, none)
  | swap self other => do
      A.swap self other
      return (.ok, none)
  | op self task => do
      let (st, given, after) ← within (A.run task (← load self))
      store self after
      return (st, given)

/-- What the caller has to see to: `self` and `other` are initialised and of one layout, and
`out` is a variable that owns no block, since it is overwritten. -/
def Allowed (s : Vars α T) : Call α Op -> Prop
  | init out elem al => A.data (s.objs out) = none ∧ elem.isType = true ∧ al.isSome = true
  | make out maker => A.data (s.objs out) = none ∧ maker.Allowed A s
  | deinit _ => True
  | copyAssign self other | swap self other =>
      A.Real (s.objs self) ∧ A.Real (s.objs other) ∧ A.elem (s.objs self) = A.elem (s.objs other)
  | moveAssign self other =>
      A.Real (s.objs other) ∧ (A.Real (s.objs self) -> A.elem (s.objs self) = A.elem (s.objs other))
  | op self task => A.Real (s.objs self) ∧ A.Allowed (s.objs self) task

/-- The same call on lists. -/
def apply (abs : Nat -> List α) : Call α Op -> Nat -> List α
  | init out _ _ => update abs out []
  | make out maker => update abs out (maker.contents A abs)
  | deinit self => update abs self []
  | copyAssign self other => update abs self (abs other)
  | moveAssign self other =>
      if self = other then abs else update (update abs self (abs other)) other []
  | swap self other => fun var => abs (Equiv.swap self other var)
  | op self task => update abs self (A.apply (abs self) task)

/-- What it hands out. -/
def answer (abs : Nat -> List α) : Call α Op -> Option α
  | op self task => A.answer (abs self) task
  | init .. | make .. | deinit _ | copyAssign .. | moveAssign .. | swap .. => none

/-- The room that the call needs is not there and not to be had. -/
def Refused (s later : Vars α T) : Call α Op -> Prop
  | make _ maker => maker.Refused A s later
  | copyAssign self other =>
      A.grower.Denied (A.wrap (s.objs self)) (A.grower.len (A.wrap (s.objs other))) s.mem later.mem
  | op self task => exists need, A.required (s.objs self) task = some need ∧
      A.grower.Denied (A.wrap (s.objs self)) need s.mem later.mem
  | init .. | deinit _ | moveAssign .. | swap .. => False

end Call

/-- A variable gives away the container inside. -/
def take (self : Nat) : Run (Vars α T) Inner := do
  let (inner, after) ← within (A.into (← load self))
  store self after
  return inner

/-- A run of a program, and of the same program on lists: both start with nothing, over an
arbitrary script of the allocator, and a call that is refused is none on the lists.  `others`
are the blocks of those who are no such objects, which they may write to, give back and add to. -/
inductive Follows : Blocks AlTag (List (Option α)) -> Vars α T -> (Nat -> List α) -> Prop where
  | start (answers : Nat -> Option Addr) :
      Follows (fun _ => none) ⟨fun _ => A.inert, ⟨fun _ => none, answers, 0⟩⟩ fun _ => []
  | call {others : Blocks AlTag (List (Option α))} {s later : Vars α T} {abs : Nat -> List α} {st : Status}
      {given : Option α} (before : Follows others s abs) (call : Call α Op) (allowed : call.Allowed A s)
      (ran : call.run A s = some ((st, given), later)) :
      Follows others later (if st = .ok then call.apply A abs else abs)
  | taken {others : Blocks AlTag (List (Option α))} {s later : Vars α T} {abs : Nat -> List α} {inner : Inner}
      (before : Follows others s abs) (self : Nat) (real : A.Real (s.objs self))
      (ran : A.take self s = some (inner, later)) :
      Follows (handedOver others s.mem.blocks (A.data (s.objs self)).toList) later (update abs self [])
  | elsewhere {others theirs : Blocks AlTag (List (Option α))} {s : Vars α T} {abs : Nat -> List α}
      (before : Follows others s abs) (mem : SpanMem α)
      (own : without theirs mem.blocks = without others s.mem.blocks)
      (kept : forall addr, theirs addr ≠ none -> mem.blocks addr = theirs addr) :
      Follows theirs { s with mem := mem } abs

/-! ## What an adaptor owes -/

section Owing

variable (kind : Kind Inner (List α) AlTag (List (Option α)))

/-- Memory holds the list in the container inside. -/
abbrev Holds (blocks : Blocks AlTag (List (Option α))) (obj : T) (list : List α) : Prop :=
  kind.Holds blocks (A.wrap obj) (A.order list)

/-- An object was built of the list, or there is no trace of it. -/
def Built (heap : SpanMem α) (list : List α) (result : Status × Option T) (later : SpanMem α) : Prop :=
  (exists obj, result = (.ok, some obj) ∧ A.Holds kind later.blocks obj list ∧
    Evolves heap.blocks later.blocks [] (A.data obj).toList) ∨
  (result = (.errNoMem, none) ∧ later.blocks = heap.blocks)

/-- The object has become another one, of the list. -/
structure Tends (heap : SpanMem α) (obj after : T) (list : List α) (later : SpanMem α) : Prop where
  holds : A.Holds kind later.blocks after list
  evolves : Evolves heap.blocks later.blocks (A.data obj).toList (A.data after).toList
  al : A.al after = A.al obj

/-- The operation did what it does on lists, or was refused and did nothing. -/
def Done (heap : SpanMem α) (obj : T) (list : List α) (op : Op) (result : Status × Option α × T)
    (later : SpanMem α) : Prop :=
  (exists after, result = (.ok, A.answer list op, after) ∧ A.Tends kind heap obj after (A.apply list op) later) ∨
  (result = (.errNoMem, none, obj) ∧ later.blocks = heap.blocks)

/-- The first block, for so many elems, was not to be had. -/
def Unbuilt (elem : Layout) (al : Al) (count : Nat) (heap : SpanMem α) (result : Status × Option T)
    (later : SpanMem α) : Prop :=
  result.1 ≠ .ok -> Refusal (firstRequest α elem al) elem.size count heap later

/-- What is asked of the functions: to assign is to assign the container inside, and what the
others do to an object is what they do to its list, and they fail only for want of room. -/
structure Meets (handling : Handling Inner AlTag (List (Option α)))
    (replace : Inner -> Inner -> Run (SpanMem α) (Status × Inner)) : Prop where
  sound : handling.Sound kind []
  inert : A.wrap A.inert = handling.inert
  real : forall obj, handling.real (A.wrap obj) = (A.al obj).isSome
  alike : forall obj other, A.elem obj = A.elem other -> handling.alike (A.wrap obj) (A.wrap other) = true
  owned : forall obj list, kind.owned (A.wrap obj) list = (A.data obj).toList
  order_nil : A.order [] = []
  init : forall (heap : SpanMem α) (elem : Layout) (al : Al), elem.isType = true -> al.isSome = true ->
    Ends (A.init elem al) heap fun obj later => later = heap ∧ A.data obj = none ∧ A.Holds kind heap.blocks obj []
  initCap : forall (heap : SpanMem α) (cap : Nat) (elem : Layout) (al : Al), elem.isType = true -> al.isSome = true ->
    Ends (A.initCap cap elem al) heap (A.Built kind heap [])
  initCap_asks : forall (heap : SpanMem α) (cap : Nat) (elem : Layout) (al : Al),
    Allows (A.initCap cap elem al) heap (Unbuilt elem al cap heap)
  fromData : forall (heap : SpanMem α) (data : List α) (elem : Layout) (al : Al), elem.isType = true ->
    al.isSome = true -> Ends (A.fromData data elem al) heap (A.Built kind heap (A.order data))
  fromData_asks : forall (heap : SpanMem α) (data : List α) (elem : Layout) (al : Al),
    Allows (A.fromData data elem al) heap (Unbuilt elem al data.length heap)
  fromSpan : forall src al, A.fromSpan src al = do
    require (al.isSome = true)
    A.fromData src.elems src.elem al
  copyWith : forall (heap : SpanMem α) (obj : T) (list : List α) (al : Al), A.Holds kind heap.blocks obj list ->
    A.Real obj -> al.isSome = true -> Ends (A.copyWith obj al) heap (A.Built kind heap list)
  copyWith_asks : forall (heap : SpanMem α) (obj : T) (al : Al),
    Allows (A.copyWith obj al) heap (Unbuilt (A.elem obj) al (A.grower.len (A.wrap obj)) heap)
  copy : forall obj, A.copy obj = do
    require ((A.al obj).isSome = true)
    A.copyWith obj (A.al obj)
  deinit : forall obj, A.deinit obj = do
    return A.wrap.symm (← handling.release (A.wrap obj))
  into : forall obj, A.into obj = do
    require ((A.al obj).isSome = true)
    return (A.wrap obj, A.inert)
  replaced : forall (heap : SpanMem α) (obj other : T) (list rest : List α), A.Holds kind heap.blocks obj list ->
    A.Holds kind heap.blocks other rest -> A.Real obj -> A.Real other -> A.elem obj = A.elem other ->
    (forall addr, addr ∈ (A.data other).toList -> addr ∉ (A.data obj).toList) ->
    Ends (replace (A.wrap obj) (A.wrap other)) heap fun answer later =>
      (answer.1 = .ok ∧ A.Tends kind heap obj (A.wrap.symm answer.2) rest later) ∨
      (answer = (.errNoMem, A.wrap obj) ∧ later.blocks = heap.blocks)
  replaced_asks : forall (heap : SpanMem α) (obj other : T) (list rest : List α), A.Holds kind heap.blocks obj list ->
    A.Holds kind heap.blocks other rest -> A.Real obj -> A.Real other -> A.elem obj = A.elem other ->
    Allows (replace (A.wrap obj) (A.wrap other)) heap fun answer later =>
      answer.1 ≠ .ok -> A.grower.Denied (A.wrap obj) (A.grower.len (A.wrap other)) heap later
  copyAssign : forall self other, A.copyAssign self other =
    handling.copyInside A.wrap (handling.copyAssign replace .ok self other) self other
  moveAssign : forall self other, A.moveAssign self other =
    handling.moveInside A.wrap (handling.moveAssign self other) self other
  swap : forall self other, A.swap self other = handling.swapInside A.wrap (handling.swap self other) self other
  run : forall (heap : SpanMem α) (obj : T) (list : List α) (op : Op), A.Holds kind heap.blocks obj list ->
    A.Real obj -> A.Allowed obj op -> Ends (A.run op obj) heap (A.Done kind heap obj list op)
  run_asks : forall (heap : SpanMem α) (obj : T) (list : List α) (op : Op), A.Holds kind heap.blocks obj list ->
    A.Real obj -> Allows (A.run op obj) heap fun result later => result.1 ≠ .ok ->
      exists need, A.required obj op = some need ∧ A.grower.Denied (A.wrap obj) need heap later

/-! ## The invariant -/

/-- The containers inside have the lists. -/
def Invariant (others : Blocks AlTag (List (Option α))) (s : Vars α T) (abs : Nat -> List α) : Prop :=
  Among kind others (inside A.wrap s) fun var => A.order (abs var)

end Owing

section Keeping

variable {A : Adaptor α T Inner Op} {kind : Kind Inner (List α) AlTag (List (Option α))}
  {handling : Handling Inner AlTag (List (Option α))} {replace : Inner -> Inner -> Run (SpanMem α) (Status × Inner)}
  {others : Blocks AlTag (List (Option α))} {s : Vars α T} {abs : Nat -> List α} {self other : Nat} {obj : T}
  {list : List α} {mem : SpanMem α}

namespace Invariant

theorem held (invariant : A.Invariant kind others s abs) (var : Nat) :
    A.Holds kind s.mem.blocks (s.objs var) (abs var) := Among.held invariant var

/-- The blocks of the others are as they left them. -/
theorem kept (invariant : A.Invariant kind others s abs) (addr : Addr) (taken : others addr ≠ none) :
    s.mem.blocks addr = others addr := Among.kept invariant addr taken

theorem order_update (var : Nat) (list : List α) : (fun place => A.order (update abs var list place)) =
    update (fun place => A.order (abs place)) var (A.order list) :=
  funext fun place => Function.apply_update (fun _ => A.order) abs var list place

/-- One object acted on its own block. -/
theorem acted (invariant : A.Invariant kind others s abs) (meets : A.Meets kind handling replace)
    (holds : A.Holds kind mem.blocks obj list)
    (evolves : Evolves s.mem.blocks mem.blocks (A.data (s.objs self)).toList (A.data obj).toList) :
    A.Invariant kind others ⟨update s.objs self obj, mem⟩ (update abs self list) := by
  unfold Invariant
  rw [inside_update, order_update]
  refine Among.act invariant ?_ holds
  change Evolves _ _ (kind.owned (A.wrap (s.objs self)) _) _
  rw [meets.owned, meets.owned]
  exact evolves

/-- A variable that owned nothing is overwritten by an object that was built. -/
theorem built (invariant : A.Invariant kind others s abs) (meets : A.Meets kind handling replace)
    (bare : A.data (s.objs self) = none) (holds : A.Holds kind mem.blocks obj list)
    (evolves : Evolves s.mem.blocks mem.blocks [] (A.data obj).toList) :
    A.Invariant kind others ⟨update s.objs self obj, mem⟩ (update abs self list) := by
  refine invariant.acted meets holds ?_
  rw [bare]
  exact evolves

/-- A constructor builds an object of the list it should have, or leaves no trace. -/
theorem made (invariant : A.Invariant kind others s abs) (meets : A.Meets kind handling replace) (maker : Maker α)
    (allowed : maker.Allowed A s) : Ends (maker.make A) s fun result later => later.objs = s.objs ∧
      A.Built kind s.mem (maker.contents A abs) result later.mem ∧ (result.1 ≠ .ok -> maker.Refused A s later) := by
  have built : forall {run : Run (SpanMem α) (Status × Option T)} {list : List α} {elem : Layout} {al : Al} {count : Nat},
      Ends run s.mem (A.Built kind s.mem list) -> Allows run s.mem (Unbuilt elem al count s.mem) ->
      Ends (within run) s fun result later => later.objs = s.objs ∧ A.Built kind s.mem list result later.mem ∧
        Unbuilt elem al count s.mem result later.mem :=
    fun ends asks => ends_within.mpr ((ends.and_allows asks).mono fun _ _ both => ⟨rfl, both⟩)
  cases maker with
  | initCap cap elem al =>
      exact built (meets.initCap s.mem cap elem al allowed.1 allowed.2) (meets.initCap_asks s.mem cap elem al)
  | fromData data elem al =>
      exact built (meets.fromData s.mem data elem al allowed.1 allowed.2) (meets.fromData_asks s.mem data elem al)
  | fromSpan src al =>
      have ends := built (meets.fromData s.mem src.elems src.elem al allowed.1 allowed.2)
        (meets.fromData_asks s.mem src.elems src.elem al)
      simp only [Maker.make, meets.fromSpan, ends_within, ends_bind, ends_require, allowed.2, true_and] at ends ⊢
      exact ends
  | copy self =>
      have real : (A.al (s.objs self)).isSome = true := allowed
      have ends := built (meets.copyWith s.mem _ _ _ (invariant.held self) real real)
        (meets.copyWith_asks s.mem (s.objs self) (A.al (s.objs self)))
      simp only [Maker.make, meets.copy, ends_bind, ends_load, ends_within, ends_require, real, true_and]
        at ends ⊢
      exact ends
  | copyWith self al =>
      simp only [Maker.make, ends_bind, ends_load]
      exact built (meets.copyWith s.mem _ _ al (invariant.held self) allowed.1 allowed.2)
        (meets.copyWith_asks s.mem (s.objs self) al)

theorem copyAssigned (invariant : A.Invariant kind others s abs) (meets : A.Meets kind handling replace)
    (realSelf : A.Real (s.objs self)) (realOther : A.Real (s.objs other))
    (alike : A.elem (s.objs self) = A.elem (s.objs other)) :
    Ends (A.copyAssign self other) s fun st later =>
      (st = .ok ∧ A.Invariant kind others later (update abs self (abs other))) ∨
        (A.grower.Denied (A.wrap (s.objs self)) (A.grower.len (A.wrap (s.objs other))) s.mem later.mem ∧
          st = .errNoMem ∧ later.objs = s.objs ∧ later.mem.blocks = s.mem.blocks) := by
  rw [meets.copyAssign]
  apply Among.ends_copyInside invariant meets.sound ((meets.real _).trans realSelf) ((meets.real _).trans realOther)
    (meets.alike _ _ alike)
  · rintro rfl
    rw [update_eq_self]
    exact Or.inl ⟨rfl, invariant⟩
  · intro different
    have apart := Among.apart invariant (Ne.symm different)
    change forall addr, addr ∈ kind.owned (A.wrap (s.objs other)) _ -> addr ∉ kind.owned (A.wrap (s.objs self)) _ at apart
    simp only [meets.owned] at apart
    refine ((meets.replaced s.mem _ _ _ _ (invariant.held self) (invariant.held other) realSelf realOther alike
      apart).and_allows (meets.replaced_asks s.mem _ _ _ _ (invariant.held self) (invariant.held other) realSelf
        realOther alike)).mono ?_
    rintro ⟨st, after⟩ later ⟨⟨done, tends⟩ | ⟨refused, same⟩, denied⟩
    · have still : (A.al (A.wrap.symm after)).isSome = true := tends.al ▸ realSelf
      refine ⟨?_, Or.inl ⟨done, invariant.acted meets tends.holds tends.evolves⟩⟩
      rw [← still, ← meets.real, Equiv.apply_symm_apply]
    · cases refused
      rw [Equiv.symm_apply_apply, update_eq_self]
      exact ⟨(meets.real _).trans realSelf, Or.inr ⟨denied (by simp), rfl, rfl, same⟩⟩

theorem moveAssigned (invariant : A.Invariant kind others s abs) (meets : A.Meets kind handling replace)
    (realOther : A.Real (s.objs other))
    (alike : A.Real (s.objs self) -> A.elem (s.objs self) = A.elem (s.objs other)) :
    Ends (A.moveAssign self other) s fun _ later => A.Invariant kind others later
      (if self = other then abs else update (update abs self (abs other)) other []) := by
  rw [meets.moveAssign]
  refine (Among.ends_moveInside invariant meets.sound ((meets.real _).trans realOther) fun real =>
    meets.alike _ _ (alike ((meets.real _).symm.trans real))).mono ?_
  intro _ later now
  by_cases one : self = other
  · rw [if_pos one] at now ⊢
    exact now
  · rw [if_neg one] at now ⊢
    unfold Invariant
    rw [order_update, order_update, meets.order_nil]
    exact now

theorem swapped (invariant : A.Invariant kind others s abs) (meets : A.Meets kind handling replace)
    (realSelf : A.Real (s.objs self)) (realOther : A.Real (s.objs other))
    (alike : A.elem (s.objs self) = A.elem (s.objs other)) :
    Ends (A.swap self other) s fun _ later =>
      A.Invariant kind others later fun var => abs (Equiv.swap self other var) := by
  rw [meets.swap]
  exact Among.ends_swapInside invariant meets.sound ((meets.real _).trans realSelf) ((meets.real _).trans realOther)
    (meets.alike _ _ alike)

theorem released (invariant : A.Invariant kind others s abs) (meets : A.Meets kind handling replace) (self : Nat) :
    Ends (A.deinit (s.objs self)) s.mem fun after later =>
      A.Invariant kind others ⟨update s.objs self after, later⟩ (update abs self []) := by
  simp only [meets.deinit, ends_bind, ends_pure]
  refine (Among.released invariant meets.sound self).mono ?_
  rintro after later ⟨rfl, cleared⟩
  unfold Invariant
  rw [inside_update, Equiv.apply_symm_apply, order_update, meets.order_nil]
  exact cleared

/-- Every call ends, whatever the allocator answers, hands out what it does on lists, and
leaves the lists that it leaves there; a refused call leaves everything. -/
theorem run (invariant : A.Invariant kind others s abs) (meets : A.Meets kind handling replace) (call : Call α Op)
    (allowed : call.Allowed A s) : Ends (call.run A) s fun result later =>
      (result = (.ok, call.answer A abs) ∧ A.Invariant kind others later (call.apply A abs)) ∨
        (call.Refused A s later ∧ result = (.errNoMem, none) ∧ later.objs = s.objs ∧ later.mem.blocks = s.mem.blocks) := by
  cases call with
  | init out elem al =>
      simp only [Call.run, ends_bind, ends_within, ends_store, ends_pure]
      refine (meets.init s.mem elem al allowed.2.1 allowed.2.2).mono ?_
      rintro obj later ⟨rfl, none_, holds⟩
      refine Or.inl ⟨rfl, invariant.built meets allowed.1 holds ?_⟩
      rw [none_]
      exact Evolves.refl _ _
  | make out maker =>
      simp only [Call.run, ends_bind]
      refine (invariant.made meets maker allowed.2).mono ?_
      rintro result mid ⟨sameObjs, ⟨obj, rfl, holds, evolves⟩ | ⟨rfl, same⟩, refused⟩
      · simp only [fill, ends_bind, ends_store, ends_pure, sameObjs]
        exact Or.inl ⟨rfl, invariant.built meets allowed.1 holds evolves⟩
      · simp only [fill, ends_pure]
        exact Or.inr ⟨refused (by simp), trivial, sameObjs, same⟩
  | deinit self =>
      simp only [Call.run, ends_bind, ends_load, ends_within, ends_store, ends_pure]
      exact (invariant.released meets self).mono fun after later cleared => Or.inl ⟨rfl, cleared⟩
  | copyAssign self other =>
      simp only [Call.run, ends_bind, ends_pure]
      refine (invariant.copyAssigned meets allowed.1 allowed.2.1 allowed.2.2).mono ?_
      rintro st later (⟨rfl, now⟩ | ⟨denied, rfl, unchanged⟩)
      · exact Or.inl ⟨rfl, now⟩
      · exact Or.inr ⟨denied, rfl, unchanged⟩
  | moveAssign self other =>
      simp only [Call.run, ends_bind, ends_pure]
      exact (invariant.moveAssigned meets allowed.1 allowed.2).mono fun _ later now => Or.inl ⟨rfl, now⟩
  | swap self other =>
      simp only [Call.run, ends_bind, ends_pure]
      exact (invariant.swapped meets allowed.1 allowed.2.1 allowed.2.2).mono fun _ later now => Or.inl ⟨rfl, now⟩
  | op self task =>
      simp only [Call.run, ends_bind, ends_load, ends_within, ends_store, ends_pure]
      refine ((meets.run s.mem _ _ task (invariant.held self) allowed.1 allowed.2).and_allows
        (meets.run_asks s.mem _ _ task (invariant.held self) allowed.1)).mono ?_
      rintro result mem ⟨⟨after, rfl, tends⟩ | ⟨rfl, same⟩, denied⟩
      · exact Or.inl ⟨rfl, invariant.acted meets tends.holds tends.evolves⟩
      · exact Or.inr ⟨denied (by simp), rfl, update_eq_self self s.objs, same⟩

/-- The container inside is given away as it is, and its block is not the objects' any more. -/
theorem ends_take (invariant : A.Invariant kind others s abs) (meets : A.Meets kind handling replace)
    (real : A.Real (s.objs self)) : Ends (A.take self) s fun inner later => inner = A.wrap (s.objs self) ∧
      later.mem = s.mem ∧ A.Invariant kind (handedOver others s.mem.blocks (A.data (s.objs self)).toList) later
        (update abs self []) := by
  have checked : (A.al (s.objs self)).isSome = true := real
  simp only [take, meets.into, ends_bind, ends_load, ends_within, ends_require, checked, true_and, ends_pure,
    ends_store]
  have handed := Among.handed invariant self meets.sound.idle.held meets.sound.idle.owned
  change Among _ (handedOver _ _ (kind.owned (A.wrap (s.objs self)) _)) _ _ at handed
  unfold Invariant
  rw [inside_update, order_update, meets.order_nil, meets.inert]
  rwa [meets.owned] at handed

end Invariant

/-- In every run, the containers inside have the lists. -/
theorem Follows.invariant (follows : A.Follows others s abs) (meets : A.Meets kind handling replace) :
    A.Invariant kind others s abs := by
  induction follows with
  | start answers =>
      have first : Among kind (fun _ => none) _ _ :=
        Among.start handling.inert (meets.sound.idle.held _) meets.sound.idle.owned answers
      unfold Invariant inside
      simp only [meets.inert, meets.order_nil]
      exact first
  | call before call allowed ran ih =>
      rcases (ih.run meets call allowed).of_eq ran with ⟨same, now⟩ | ⟨_, same, sameObjs, sameBlocks⟩
      · cases same
        exact now
      · cases same
        refine Among.unchanged ih ?_ sameBlocks
        exact funext fun var => congrArg A.wrap (congrFun sameObjs var)
  | taken before self real ran ih => exact ((ih.ends_take meets real).of_eq ran).2.2
  | elsewhere before mem own kept ih => exact Among.elsewhere ih own kept

/-- A call of a run is the next step of it. -/
theorem Follows.step (follows : A.Follows others s abs) (meets : A.Meets kind handling replace) (call : Call α Op)
    (allowed : call.Allowed A s) : Ends (call.run A) s fun result later =>
      A.Follows others later (if result.1 = .ok then call.apply A abs else abs) ∧
      (result = (.ok, call.answer A abs) ∨
        (call.Refused A s later ∧ result = (.errNoMem, none) ∧ later.objs = s.objs ∧ later.mem.blocks = s.mem.blocks)) := by
  rcases (follows.invariant meets).run meets call allowed with ⟨⟨st, given⟩, later, ran, outcome⟩
  exact ⟨(st, given), later, ran, follows.call call allowed ran, outcome.imp_left And.left⟩

end Keeping

end Adaptor
end TerseDsa
