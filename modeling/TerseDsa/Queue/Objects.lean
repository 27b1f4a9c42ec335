import TerseDsa.Containers.Adaptors
import TerseDsa.Deque.Requests
import TerseDsa.Queue.Model

namespace TerseDsa

open Foundation Run
open Function (update update_self update_of_ne)

/-!
# Queues serve the oldest elem first

Queues are numbered variables over one memory.  A program of calls is run and,
beside it, the same program on lists whose head is the front.  Over a stretch of
such a run that leaves the elems of one queue in their places, what was in it and
what entered it is what was served and what is in it, in one order.
-/

namespace Queue

open Objects QueueObjects Adaptor

variable {α : Type} {heap : DequeMem α} {self : Queue} {queue : List α} {s later : QueueObjects α}
  {abs : Nat -> List α} {others : Blocks AlTag (List (Option α))}

/-! ## Operations on one queue -/

/-- The operations on one queue, with their arguments. -/
inductive Op (α : Type) where
  | front
  | setFront (val : α)
  | back
  | setBack (val : α)
  | push (val : Deque.Source α)
  | extend (src : SpanView α)
  | pop
  | popTo
  | clear
  | reserve (newCap : Nat)
  | shrinkToFit

namespace Op

/-- What the caller has to see to; `out` of `pop_to` is outside the queue. -/
def Allowed (self : Queue) : Op α -> Prop
  | front | setFront _ | back | setBack _ | pop | popTo => 0 < self.deque.len
  | push val => val.Allowed self.deque
  | extend src => self.deque.elem = src.elem
  | clear | reserve _ | shrinkToFit => True

/-- Run it; functions without a status succeed. -/
def run : Op α -> Queue -> Run (DequeMem α) (Status × Option α × Queue)
  | front, self => do
      let val ← Queue.front self
      return (.ok, some val, self)
  | setFront val, self => do
      Queue.setFront self val
      return (.ok, none, self)
  | back, self => do
      let val ← Queue.back self
      return (.ok, some val, self)
  | setBack val, self => do
      Queue.setBack self val
      return (.ok, none, self)
  | push val, self => do
      let (st, after) ← Queue.push self (val.operand self.deque)
      return (st, none, after)
  | extend src, self => do
      let (st, after) ← Queue.extend self src
      return (st, none, after)
  | pop, self => do
      return (.ok, none, ← Queue.pop self)
  | popTo, self => do
      let (val, after) ← Queue.popTo self .outside
      return (.ok, some val, after)
  | clear, self => do
      return (.ok, none, ← Queue.clear self)
  | reserve newCap, self => do
      let (st, after) ← Queue.reserve α self newCap
      return (st, none, after)
  | shrinkToFit, self => do
      let (st, after) ← Queue.shrinkToFit α self
      return (st, none, after)

/-- The same operation on a list whose head is the front. -/
def apply (queue : List α) : Op α -> List α
  | setFront val => queue.set 0 val
  | setBack val => queue.set (queue.length - 1) val
  | push val => queue ++ (val.elem? queue).toList
  | extend src => queue ++ src.elems
  | pop | popTo => queue.tail
  | clear => []
  | front | back | reserve _ | shrinkToFit => queue

/-- What it hands out. -/
def answer (queue : List α) : Op α -> Option α
  | front | popTo => queue.head?
  | back => queue.getLast?
  | _ => none

/-- How many elems it asks room for. -/
def required (self : Queue) : Op α -> Option Nat
  | push _ => some (self.deque.len + 1)
  | extend src => some (self.deque.len + src.elems.length)
  | reserve newCap => some newCap
  | shrinkToFit => some self.deque.len
  | _ => none

end Op

/-- The functions of a queue; its list has the front in front, as its deque has. -/
@[reducible] def adaptor (α : Type) : Adaptor α Queue Deque (Op α) where
  wrap := asDeque
  al self := self.deque.al
  elem self := self.deque.elem
  data self := self.deque.data
  inert := inert
  init := init
  initCap := initCap α
  fromData := fromData
  fromSpan := fromSpan
  copy := copy α
  copyWith := copyWith α
  deinit := deinit α
  into := intoDeque
  copyAssign := QueueObjects.copyAssign α
  moveAssign := QueueObjects.moveAssign α
  swap := QueueObjects.swap α
  run := Op.run
  Allowed := Op.Allowed
  grower := Deque.grower α
  required := Op.required
  order := id
  apply := Op.apply
  answer := Op.answer

theorem Op.done {op : Op α} {after : Queue} {later : DequeMem α}
    (tends : Deque.Tends heap.blocks later.blocks self.deque after.deque (op.apply queue)) :
    (adaptor α).Done Deque.kind heap self queue op (.ok, op.answer queue, after) later :=
  Or.inl ⟨after, rfl, Or.inr tends.holds, tends.evolves, tends.al⟩

theorem ends_assertQueue {S : Type} {state : S} (real : self.deque.al.isSome = true) {post : Unit -> S -> Prop} :
    Ends (assertQueue self) state post <-> post () state := by
  simp only [assertQueue, ends_require, real, true_and]

theorem real_of_holds (holds : Deque.Holds heap.blocks self.deque queue) : self.deque.al.isSome = true := by
  rcases holds.ring with ⟨_, ring, _⟩
  exact ring.real

namespace Op

/-- Every operation does to the list what it should, whatever the allocator answers. -/
theorem ends_run (op : Op α) (holds : Deque.Holds heap.blocks self.deque queue) (allowed : op.Allowed self) :
    Ends (op.run self) heap ((adaptor α).Done Deque.kind heap self queue op) := by
  have real := real_of_holds holds
  have len := holds.len
  have split : 0 < self.deque.len -> exists first rest, queue = first :: rest :=
    fun positive => List.exists_cons_of_length_pos (len ▸ positive)
  -- the check at the end, on a deque that was tended
  have settled : forall {after : Deque} {later : DequeMem α} {elems : List α},
      Deque.Tends heap.blocks later.blocks self.deque after elems -> (⟨after⟩ : Queue).deque.al.isSome = true :=
    fun tends => tends.al ▸ real
  cases op with
  | front =>
      rcases split allowed with ⟨first, rest, rfl⟩
      have positive : 0 < self.deque.len := allowed
      have found : (first :: rest)[0]? = some first := rfl
      simp only [run, Queue.front, Deque.front, ends_bind, ends_assertQueue real, ends_require, positive, real,
        true_and, Deque.ends_elem holds found, ends_demand_some, ends_pure]
      exact done (Deque.Tends.refl holds)
  | setFront val =>
      have positive : 0 < self.deque.len := allowed
      simp only [run, Queue.setFront, ends_bind, ends_assertQueue real, ends_require, positive, true_and]
      apply Deque.ends_overwrite holds positive
      exact fun later tends => (ends_pure _ _ _).mpr (done tends)
  | back =>
      have positive : 0 < self.deque.len := allowed
      have inside : queue.length - 1 < queue.length := Nat.sub_lt (len ▸ positive) Nat.one_pos
      have found : queue[self.deque.len - 1]? = some queue[queue.length - 1] := by
        rw [len]
        exact List.getElem?_eq_getElem inside
      have last : queue.getLast? = some queue[queue.length - 1] := by
        rw [List.getLast?_eq_getElem?]
        exact List.getElem?_eq_getElem inside
      simp only [run, Queue.back, Deque.back, ends_bind, ends_assertQueue real, ends_require, positive, real,
        true_and, Deque.ends_elem holds found, ends_demand_some, ends_pure]
      rw [← last]
      exact done (Deque.Tends.refl holds)
  | setBack val =>
      have positive : 0 < self.deque.len := allowed
      simp only [run, Queue.setBack, ends_bind, ends_assertQueue real, ends_require, positive, true_and]
      apply Deque.ends_overwrite holds (Nat.sub_lt positive Nat.one_pos)
      intro later tends
      rw [len] at tends
      exact (ends_pure _ _ _).mpr (done tends)
  | push val =>
      rcases val.names holds allowed with ⟨given, value, names⟩
      simp only [run, Queue.push, ends_bind, ends_assertQueue real]
      apply Deque.ends_pushBack holds names
      · intro later same
        simp only [ends_assertQueue real, ends_pure]
        exact Or.inr ⟨rfl, same⟩
      · intro after later tends
        simp only [ends_assertQueue (settled tends), ends_pure]
        refine done ?_
        rw [apply, value]
        exact tends
  | extend src =>
      have alike : self.deque.elem = src.elem := allowed
      simp only [run, Queue.extend, ends_bind, ends_assertQueue real, ends_require, alike, true_and]
      apply Deque.ends_extend holds alike
      · intro later same
        simp only [ends_assertQueue real, ends_pure]
        exact Or.inr ⟨rfl, same⟩
      · intro after later tends
        simp only [ends_assertQueue (settled tends), ends_pure]
        exact done tends
  | pop =>
      rcases split allowed with ⟨first, rest, rfl⟩
      have positive : 0 < self.deque.len := allowed
      simp only [run, Queue.pop, ends_bind, ends_assertQueue real, ends_require, positive, true_and]
      apply Deque.ends_popFront holds
      intro after tends
      simp only [ends_assertQueue (settled tends), ends_pure]
      exact done tends
  | popTo =>
      rcases split allowed with ⟨first, rest, rfl⟩
      have positive : 0 < self.deque.len := allowed
      simp only [run, Queue.popTo, ends_bind, ends_assertQueue real, ends_require, positive, true_and]
      apply Deque.ends_popFrontTo holds
      intro after tends
      simp only [ends_assertQueue (settled tends), ends_pure]
      exact done tends
  | clear =>
      simp only [run, Queue.clear, ends_bind, ends_assertQueue real]
      apply Deque.ends_clear holds
      intro after tends
      simp only [ends_assertQueue (settled tends), ends_pure]
      exact done tends
  | reserve newCap =>
      simp only [run, Queue.reserve, ends_bind, ends_assertQueue real]
      apply Deque.ends_reserve holds
      · intro later same
        simp only [ends_assertQueue real, ends_pure]
        exact Or.inr ⟨rfl, same⟩
      · intro after later tends _ _
        simp only [ends_assertQueue (settled tends), ends_pure]
        exact done tends
  | shrinkToFit =>
      simp only [run, Queue.shrinkToFit, ends_bind, ends_assertQueue real]
      apply Deque.ends_shrinkToFit holds
      · intro later same
        simp only [ends_assertQueue real, ends_pure]
        exact Or.inr ⟨rfl, same⟩
      · intro after later tends
        simp only [ends_assertQueue (settled tends), ends_pure]
        exact done tends

/-- An operation fails only where its deque has no room and gets none. -/
theorem allows_run (op : Op α) (sized : (Deque.grower α).Sized self.deque) :
    Allows (op.run self) heap fun result later => result.1 ≠ .ok ->
      exists need, op.required self = some need ∧ (Deque.grower α).Denied self.deque need heap later := by
  cases op with
  | front | setFront val | back | setBack val | pop | popTo | clear =>
      simp only [run, allows_bind, allows_pure]
      exact fun _ _ _ failed => absurd rfl failed
  | push val =>
      simp only [run, Queue.push, assertQueue, allows_bind, allows_require, allows_pure]
      intro _
      exact (Deque.allows_pushBack sized).mono fun _ _ grew _ failed => ⟨_, rfl, grew.denied sized failed⟩
  | extend src =>
      simp only [run, Queue.extend, assertQueue, allows_bind, allows_require, allows_pure]
      intro _ _
      exact (Deque.allows_extend sized).mono fun _ _ grew _ failed => ⟨_, rfl, grew.denied sized failed⟩
  | reserve newCap =>
      simp only [run, Queue.reserve, assertQueue, allows_bind, allows_require, allows_pure]
      intro _
      exact (Deque.allows_reserve sized).mono fun _ _ grew _ failed => ⟨_, rfl, grew.denied sized failed⟩
  | shrinkToFit =>
      simp only [run, Queue.shrinkToFit, assertQueue, allows_bind, allows_require, allows_pure]
      intro _
      exact (Deque.allows_shrinkToFit sized).mono fun _ _ grew _ failed => ⟨_, rfl, grew.denied sized failed⟩

end Op

theorem held (kept : Deque.Kept heap.blocks self.deque queue) (real : self.deque.al.isSome = true) :
    Deque.Holds heap.blocks self.deque queue := by
  rcases kept with ⟨idle, _⟩ | holds
  · rw [idle] at real
    cases real
  · exact holds

/-- A queue does to its deque what it does to its list. -/
theorem meets : (adaptor α).Meets Deque.kind (DequeObjects.handling α) (Deque.copyOver α) where
  sound := Deque.sound
  inert := rfl
  real _ := rfl
  alike _ _ same := decide_eq_true same
  owned _ _ := rfl
  order_nil := rfl
  init heap elem al isType real := by
    simp only [init, ends_bind, ends_require, isType, real, true_and, Deque.ends_init isType real, ends_pure]
    exact Or.inr (Deque.Holds.of_bare real isType rfl rfl rfl rfl)
  initCap heap cap elem al isType real := by
    simp only [initCap, ends_bind, ends_require, isType, real, true_and, ends_pure]
    apply Deque.ends_initCap isType real
    · exact fun later same => Or.inr ⟨rfl, same⟩
    · exact fun deque later born => Or.inl ⟨⟨deque⟩, rfl, Or.inr born.holds, born.evolves⟩
  initCap_asks heap cap elem al := by
    simp only [initCap, allows_bind, allows_require, allows_pure]
    exact fun _ _ => Deque.allows_initImpl _ _
  fromData heap data elem al isType real := by
    simp only [fromData, ends_bind, ends_require, isType, real, true_and, ends_pure]
    apply Deque.ends_fromData isType real
    · exact fun later same => Or.inr ⟨rfl, same⟩
    · exact fun deque later born => Or.inl ⟨⟨deque⟩, rfl, Or.inr born.holds, born.evolves⟩
  fromData_asks heap data elem al := by
    simp only [fromData, allows_bind, allows_require, allows_pure]
    exact fun _ _ => Deque.allows_fromData _
  fromSpan _ _ := rfl
  copyWith heap self list al kept realSelf real := by
    simp only [copyWith, ends_bind, ends_assertQueue realSelf, ends_require, real, true_and, ends_pure]
    apply Deque.ends_copyWith (held kept realSelf) real
    · exact fun later same => Or.inr ⟨rfl, same⟩
    · exact fun deque later born => Or.inl ⟨⟨deque⟩, rfl, Or.inr born.holds, born.evolves⟩
  copyWith_asks heap self al := by
    simp only [copyWith, assertQueue, allows_bind, allows_require, allows_pure]
    exact fun _ _ => Deque.allows_copyWith
  copy _ := rfl
  deinit _ := rfl
  into _ := rfl
  replaced heap self other list rest kept keptOther realSelf realOther alike apart := by
    apply Deque.ends_copyOver (held kept realSelf) (held keptOther realOther) alike apart
    · exact fun later same => Or.inr ⟨rfl, same⟩
    · exact fun after later tends => Or.inl ⟨rfl, Or.inr tends.holds, tends.evolves, tends.al⟩
  replaced_asks heap self other list rest kept keptOther realSelf realOther alike :=
    (Deque.allows_copyOver (held kept realSelf).sized (held keptOther realOther).sized alike).mono fun _ _ grew =>
      grew.denied (held kept realSelf).sized
  copyAssign self other := congrArg (Handling.copyInside _ _ · self other) (Deque.copyAssign_eq self other)
  moveAssign self other := congrArg (Handling.moveInside _ _ · self other) (Deque.moveAssign_eq self other)
  swap self other := congrArg (Handling.swapInside _ _ · self other) (Deque.swap_eq self other)
  run heap self list op kept real allowed := op.ends_run (held kept real) allowed
  run_asks heap self list op kept real := op.allows_run (held kept real).sized

/-! ## The oldest elem first -/

/-- How a queue stands for a list whose head is the front. -/
structure Represents (heap : DequeMem α) (self : Queue) (queue : List α) : Prop where
  len : Ends (Queue.len self) heap fun len later => len = queue.length ∧ later = heap
  front : forall first, queue.head? = some first -> Ends (Queue.front self) heap fun val later =>
    val = first ∧ later = heap
  back : forall last, queue.getLast? = some last -> Ends (Queue.back self) heap fun val later =>
    val = last ∧ later = heap
  copied : Ends (Queue.copyToSpan self queue.length self.deque.elem) heap fun vals later =>
    vals = queue.map some ∧ later = heap

theorem represents_of_holds (holds : Deque.Holds heap.blocks self.deque queue) : Represents heap self queue := by
  have real := real_of_holds holds
  have len := holds.len
  constructor
  · simp only [Queue.len, ends_bind, ends_assertQueue real, ends_pure]
    exact ⟨len, trivial⟩
  · intro first at_
    rcases List.head?_eq_some_iff.mp at_ with ⟨rest, rfl⟩
    have positive : 0 < self.deque.len := len ▸ Nat.succ_pos _
    have found : (first :: rest)[0]? = some first := rfl
    simp only [Queue.front, Deque.front, ends_bind, ends_assertQueue real, ends_require, positive, real,
      true_and, Deque.ends_elem holds found, ends_demand_some]
  · intro last at_
    have positive : 0 < self.deque.len := by
      rw [len]
      exact List.length_pos_of_ne_nil fun none_ => by simp [none_] at at_
    have found : queue[self.deque.len - 1]? = some last := by
      rw [len, ← List.getLast?_eq_getElem?]
      exact at_
    simp only [Queue.back, Deque.back, ends_bind, ends_assertQueue real, ends_require, positive, real,
      true_and, Deque.ends_elem holds found, ends_demand_some]
  · rw [← len]
    simp only [Queue.copyToSpan, ends_bind, ends_assertQueue real, ends_require, true_and]
    rw [len, Deque.ends_copyToSpan holds]
    exact ⟨rfl, rfl⟩

/-! ### Nobody jumps the queue -/

/-- What the operation adds at the back. -/
def Op.entering (queue : List α) : Op α -> List α
  | push val => (val.elem? queue).toList
  | extend src => src.elems
  | front | setFront _ | back | setBack _ | pop | popTo | clear | reserve _ | shrinkToFit => []

/-- What it takes from the front. -/
def Op.leaving (queue : List α) : Op α -> List α
  | pop | popTo => queue.head?.toList
  | front | setFront _ | back | setBack _ | push _ | extend _ | clear | reserve _ | shrinkToFit => []

/-- It neither overwrites elems nor drops them all. -/
def Op.Orderly : Op α -> Prop
  | setFront _ | setBack _ | clear => False
  | front | back | push _ | extend _ | pop | popTo | reserve _ | shrinkToFit => True

theorem Op.queue_append_entering (op : Op α) (orderly : op.Orderly) (queue : List α) :
    queue ++ op.entering queue = op.leaving queue ++ op.apply queue := by
  cases op with
  | setFront _ | setBack _ | clear => exact orderly.elim
  | pop | popTo =>
      cases queue with
      | nil => rfl
      | cons first rest => exact List.append_nil _
  | push _ | extend _ => rfl
  | front | back | reserve _ | shrinkToFit => exact List.append_nil _

/-- The call works on other queues, or is one that neither overwrites elems of this one nor
drops them all. -/
def Orderly (obj : Nat) : Adaptor.Call α (Op α) -> Prop
  | .init out _ _ | .make out _ => obj ≠ out
  | .deinit self | .copyAssign self _ => obj ≠ self
  | .moveAssign self other | .swap self other => self = other ∨ (obj ≠ self ∧ obj ≠ other)
  | .op self task => obj = self -> task.Orderly

/-- What the call adds at the back of a queue. -/
def entering (abs : Nat -> List α) (obj : Nat) : Adaptor.Call α (Op α) -> List α
  | .op self task => if obj = self then task.entering (abs self) else []
  | .init .. | .make .. | .deinit _ | .copyAssign .. | .moveAssign .. | .swap .. => []

/-- What it takes from the front of a queue. -/
def leaving (abs : Nat -> List α) (obj : Nat) : Adaptor.Call α (Op α) -> List α
  | .op self task => if obj = self then task.leaving (abs self) else []
  | .init .. | .make .. | .deinit _ | .copyAssign .. | .moveAssign .. | .swap .. => []

/-- One call: what was in the queue and what entered is what left and what is in it. -/
theorem append_entering {obj : Nat} (call : Adaptor.Call α (Op α)) (orderly : Orderly obj call) (abs : Nat -> List α) :
    abs obj ++ entering abs obj call = leaving abs obj call ++ call.apply (adaptor α) abs obj := by
  cases call with
  | init out _ _ => exact (List.append_nil _).trans (update_of_ne orderly _ _).symm
  | make out _ => exact (List.append_nil _).trans (update_of_ne orderly _ _).symm
  | deinit self => exact (List.append_nil _).trans (update_of_ne orderly _ _).symm
  | copyAssign self other => exact (List.append_nil _).trans (update_of_ne orderly _ _).symm
  | moveAssign self other =>
      have same : Adaptor.Call.apply (adaptor α) abs (.moveAssign self other) obj = abs obj := by
        by_cases one : self = other
        · exact congrFun (if_pos one) obj
        · rcases orderly.resolve_left one with ⟨notSelf, notOther⟩
          simp only [Adaptor.Call.apply, if_neg one, update_of_ne notOther, update_of_ne notSelf]
      exact (List.append_nil _).trans same.symm
  | swap self other =>
      have same : Adaptor.Call.apply (adaptor α) abs (.swap self other) obj = abs obj := by
        rcases orderly with rfl | ⟨notSelf, notOther⟩
        · simp only [Adaptor.Call.apply, Equiv.swap_self, Equiv.refl_apply]
        · simp only [Adaptor.Call.apply, Equiv.swap_apply_of_ne_of_ne notSelf notOther]
      exact (List.append_nil _).trans same.symm
  | op self task =>
      by_cases mine : obj = self
      · subst mine
        simp only [entering, leaving, Adaptor.Call.apply, if_true, update_self]
        exact task.queue_append_entering (orderly rfl) (abs obj)
      · simp only [entering, leaving, Adaptor.Call.apply, if_neg mine, update_of_ne mine, List.append_nil,
          List.nil_append]

/-- A stretch of a run whose calls are orderly towards one queue, with what left that queue
and what entered it, in the order of the calls; a refused call moves nothing. -/
inductive Serves (obj : Nat) (abs : Nat -> List α) : Blocks AlTag (List (Option α)) -> QueueObjects α ->
    (Nat -> List α) -> List α -> List α -> Prop where
  | here {others : Blocks AlTag (List (Option α))} {s : QueueObjects α} (follows : (adaptor α).Follows others s abs) :
      Serves obj abs others s abs [] []
  | call {others : Blocks AlTag (List (Option α))} {s later : QueueObjects α} {now : Nat -> List α}
      {left entered : List α} {given : Option α} (before : Serves obj abs others s now left entered)
      (call : Adaptor.Call α (Op α)) (allowed : call.Allowed (adaptor α) s) (orderly : Orderly obj call)
      (ran : call.run (adaptor α) s = some ((.ok, given), later)) :
      Serves obj abs others later (call.apply (adaptor α) now) (left ++ leaving now obj call)
        (entered ++ entering now obj call)
  | refused {others : Blocks AlTag (List (Option α))} {s later : QueueObjects α} {now : Nat -> List α}
      {left entered : List α} {given : Option α} {st : Status} (before : Serves obj abs others s now left entered)
      (call : Adaptor.Call α (Op α)) (allowed : call.Allowed (adaptor α) s)
      (ran : call.run (adaptor α) s = some ((st, given), later)) (failed : st ≠ .ok) :
      Serves obj abs others later now left entered
  | taken {others : Blocks AlTag (List (Option α))} {s later : QueueObjects α} {now : Nat -> List α}
      {left entered : List α} {deque : Deque} (before : Serves obj abs others s now left entered) (self : Nat)
      (real : (s.objs self).deque.al.isSome = true) (different : obj ≠ self)
      (ran : (adaptor α).take self s = some (deque, later)) :
      Serves obj abs (handedOver others s.mem.blocks (s.objs self).deque.data.toList) later
        (update now self []) left entered
  | elsewhere {others theirs : Blocks AlTag (List (Option α))} {s : QueueObjects α} {now : Nat -> List α}
      {left entered : List α} (before : Serves obj abs others s now left entered) (mem : DequeMem α)
      (own : without theirs mem.blocks = without others s.mem.blocks)
      (kept : forall addr, theirs addr ≠ none -> mem.blocks addr = theirs addr) :
      Serves obj abs theirs { s with mem := mem } now left entered

/-- What was in the queue and what entered it is what left it and what is in it. -/
theorem Serves.append_entered {obj : Nat} {now : Nat -> List α} {left entered : List α}
    (serves : Serves obj abs others s now left entered) : abs obj ++ entered = left ++ now obj := by
  induction serves with
  | here follows => exact List.append_nil _
  | @call others s later now left entered given before call allowed orderly ran ih =>
      calc abs obj ++ (entered ++ entering now obj call)
          = left ++ (now obj ++ entering now obj call) := by
            rw [← List.append_assoc, ih, List.append_assoc]
        _ = left ++ (leaving now obj call ++ call.apply (adaptor α) now obj) := by rw [append_entering call orderly now]
        _ = left ++ leaving now obj call ++ call.apply (adaptor α) now obj := (List.append_assoc _ _ _).symm
  | refused before call allowed ran failed ih => exact ih
  | taken before self real different ran ih =>
      rw [update_of_ne different]
      exact ih
  | elsewhere before mem own kept ih => exact ih

/-- In every run each queue stands for the list that the same run computes, oldest elem first.
Every call that is allowed ends and hands out what it does on lists; one that has not the room
it needs and cannot have it is refused, and then leaves all as it was.  Over any stretch of calls that do not
overwrite or drop the elems of a queue, what leaves it is what was in it and then what entered
it, in that order, as far as it was served; a queue gives its block away as the deque of its
elems, and no call touches a block that is not the queues'. -/
theorem first_in_first_out (follows : (adaptor α).Follows others s abs) :
    (forall var, (s.objs var).deque.al.isSome = true -> Represents s.mem (s.objs var) (abs var)) ∧
    (forall addr, others addr ≠ none -> s.mem.blocks addr = others addr) ∧
    (forall call : Adaptor.Call α (Op α), call.Allowed (adaptor α) s ->
      Ends (call.run (adaptor α)) s fun result later =>
      (adaptor α).Follows others later (if result.1 = .ok then call.apply (adaptor α) abs else abs) ∧
      (result = (.ok, call.answer (adaptor α) abs) ∨ (call.Refused (adaptor α) s later ∧ result = (.errNoMem, none) ∧
        later.objs = s.objs ∧ later.mem.blocks = s.mem.blocks))) ∧
    (forall (obj : Nat) (before : Nat -> List α) (left entered : List α),
      Serves obj before others s abs left entered -> before obj ++ entered = left ++ abs obj) ∧
    forall self, (s.objs self).deque.al.isSome = true ->
      Ends ((adaptor α).take self) s fun deque later => later.mem = s.mem ∧ deque = (s.objs self).deque ∧
        Deque.Represents later.mem deque (abs self) ∧
        (adaptor α).Follows (handedOver others s.mem.blocks deque.data.toList) later (update abs self []) := by
  have invariant := follows.invariant meets
  refine ⟨fun var real => represents_of_holds (held (invariant.held var) real), invariant.kept,
    fun call allowed => follows.step meets call allowed, fun _ _ _ _ serves => serves.append_entered,
    fun self real => ?_⟩
  rcases invariant.ends_take meets real with ⟨deque, later, ran, rfl, same, _⟩
  refine ⟨_, later, ran, same, rfl, ?_, follows.taken self real ran⟩
  exact same ▸ (held (invariant.held self) real).represents

/-- The state after a call, if it ended. -/
def after (call : Adaptor.Call Nat (Op Nat)) (s : QueueObjects Nat) : QueueObjects Nat :=
  ((call.run (adaptor Nat) s).map Prod.snd).getD s

/-- A queue of 1, 2, 3 serves 1 and gets 4 behind the last, in a block of three slots. -/
def served : QueueObjects Nat :=
  after (.op 0 (.push (.outside 4))) (after (.op 0 .popTo)
    (after (.make 0 (.fromData [1, 2, 3] ⟨4, 4⟩ (some 0))) ⟨fun _ => inert, ⟨fun _ => none, some, 0⟩⟩))

theorem served_follows : exists abs, (adaptor Nat).Follows (fun _ => none) served abs ∧ abs 0 = [2, 3, 4] := by
  have made := (Adaptor.Follows.start some : (adaptor Nat).Follows _ _ _).call
    (.make 0 (.fromData [1, 2, 3] ⟨4, 4⟩ (some 0))) ⟨rfl, by decide, rfl⟩ rfl
  have popped := made.call (.op 0 .popTo) ⟨rfl, (by decide : 0 < 3)⟩ rfl
  have pushed := popped.call (.op 0 (.push (.outside 4))) ⟨rfl, trivial⟩ rfl
  exact ⟨_, pushed, rfl⟩

theorem first_in_first_out_served : Represents served.mem (served.objs 0) [2, 3, 4] := by
  rcases served_follows with ⟨abs, follows, contents⟩
  rw [← contents]
  exact (first_in_first_out follows).1 0 rfl

end Queue
end TerseDsa
