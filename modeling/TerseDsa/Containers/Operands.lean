import TerseDsa.Deque.Objects
import TerseDsa.Deque.Requests
import TerseDsa.Vec.Objects
import TerseDsa.Vec.Requests

namespace TerseDsa

open Foundation Run Objects
open Function (update update_idem update_self update_eq_self)

/-!
# Elems of the container as operands

`val` and `out` may point at an elem of the container itself.  Whatever the
block does meanwhile, the call comes to what it comes to with the same value
from outside, and where `out` points it has written the elem that it took.
-/

/-! ## A call on one container -/

section

variable {Cell R H : Type} {s : Objects R AlTag Cell} {self : Nat} {task : R -> Run (AlHeap Cell) (Status × H × R)}
  {handed nothing : H} {Next : Objects R AlTag Cell -> Prop} {Stands : AlHeap Cell -> R -> Prop}
  {Why : Status × H × R -> AlHeap Cell -> Prop}

/-- What is true of the operation is true of the call, of the run that the call continues, and of the reason
why it is refused. -/
theorem ends_call (ends : Ends (task (s.objs self)) s.mem fun result later =>
      (exists after, result = (.ok, handed, after) ∧ Stands later after) ∨
        (result = (.errNoMem, nothing, s.objs self) ∧ later.blocks = s.mem.blocks))
    (why : Allows (task (s.objs self)) s.mem Why) {call : Run (Objects R AlTag Cell) (Status × H)}
    (calls : call = do
      let (st, handed, after) ← within (task (← load self))
      store self after
      return (st, handed))
    (next : forall later, call s = some ((.ok, handed), later) -> Next later) :
    Ends call s fun result later =>
      (result = (.ok, handed) ∧ Next later ∧ Stands later.mem (later.objs self)) ∨
      (result = (.errNoMem, nothing) ∧ later.objs = s.objs ∧ later.mem.blocks = s.mem.blocks ∧
        Why (.errNoMem, nothing, s.objs self) later.mem) := by
  have outcome : Ends call s fun result later =>
      (result = (.ok, handed) ∧ Stands later.mem (later.objs self)) ∨
      (result = (.errNoMem, nothing) ∧ later.objs = s.objs ∧ later.mem.blocks = s.mem.blocks ∧
        Why (.errNoMem, nothing, s.objs self) later.mem) := by
    simp only [calls, ends_bind, ends_load, ends_within]
    refine (ends.and_allows why).mono ?_
    rintro result mem ⟨⟨after, rfl, stands⟩ | ⟨rfl, same⟩, because⟩
    · simp only [ends_store, ends_pure, update_self]
      exact Or.inl ⟨trivial, stands⟩
    · simp only [ends_store, ends_pure]
      exact Or.inr ⟨trivial, update_eq_self self s.objs, same, because⟩
  rcases outcome with ⟨result, later, ran, ⟨rfl, stands⟩ | refused⟩
  · exact ⟨_, later, ran, Or.inl ⟨rfl, next later ran, stands⟩⟩
  · exact ⟨result, later, ran, Or.inr refused⟩

end

/-! ## Vecs -/

namespace Vec

variable {α C : Type} {s : VecObjects α} {abs : Nat -> List α} {zero : α} {self j : Nat} {val : α}

/-- The call ends, hands this out and leaves these elems. -/
def Comes (C : Type) (zero : α) (s : VecObjects α) (abs : Nat -> List α) (self : Nat) (task : Op α C)
    (handed : Handed α C) (elems : List α) : Prop :=
  Ends ((Call.op self task).run zero) s fun result later => result = (.ok, handed) ∧
    Follows C zero later (update abs self elems) ∧ Represents later.mem (later.objs self) elems

/-- The call leaves these elems; or there was no room for one more and none could be had, and it changes nothing. -/
def Tries (C : Type) (zero : α) (s : VecObjects α) (abs : Nat -> List α) (self : Nat) (task : Op α C)
    (elems : List α) : Prop :=
  Ends ((Call.op self task).run zero) s fun result later =>
    (result = (.ok, .nothing) ∧ Follows C zero later (update abs self elems) ∧
      Represents later.mem (later.objs self) elems) ∨
    (result = (.errNoMem, .nothing) ∧ later.objs = s.objs ∧ later.mem.blocks = s.mem.blocks ∧
      (grower α).Denied (s.objs self) ((s.objs self).len + 1) s.mem later.mem)

/-- A pointer to elem `j`, or to a copy of it elsewhere. -/
def Points (j : Nat) (val : α) (named : Operand α) : Prop := named = .slot j ∨ named = .outside val

/-- An elem of the vec is as good an operand as its value is from outside. -/
structure OwnOperands (C : Type) (zero : α) (s : VecObjects α) (abs : Nat -> List α) (self j : Nat) (val : α) :
    Prop where
  push : forall named, Points j val named -> Tries C zero s abs self (.push named) (abs self ++ [val])
  insert : forall i, i ≤ (s.objs self).len -> forall named, Points j val named ->
    Tries C zero s abs self (.insert i named) ((abs self).take i ++ [val] ++ (abs self).drop i)
  set : forall i, i < (s.objs self).len -> forall named, Points j val named ->
    Comes C zero s abs self (.set i named) .nothing ((abs self).set i val)
  popTo : forall last, (abs self).getLast? = some last ->
    Comes C zero s abs self (.popTo .outside) (.elem last) (abs self).dropLast ∧
    Comes C zero s abs self (.popTo (.slot j)) (.elem last) ((abs self).set j last).dropLast

/-- The operations without a status. -/
def Op.Certain : Op α C -> Prop
  | set .. | popTo _ => True
  | _ => False

theorem Op.Certain.ok {task : Op α C} (certain : task.Certain) {mem : VecMem α} {obj : Vec} :
    Allows (task.run zero obj) mem fun result _ => result.1 = .ok := by
  cases task with
  | set idx val | popTo out =>
      simp only [Op.run, allows_bind, allows_pure]
      exact fun _ _ _ => trivial
  | _ => exact absurd certain id

theorem Follows.outcome (follows : Follows C zero s abs) (real : (s.objs self).al.isSome = true) {task : Op α C}
    (allowed : task.Allowed (s.objs self)) {Why : Status × Handed α C × Vec -> VecMem α -> Prop}
    (why : Allows (task.run zero (s.objs self)) s.mem Why) :
    Ends ((Call.op self task).run zero) s fun result later =>
      (result = (.ok, task.answer (abs self)) ∧
        Follows C zero later (update abs self (task.apply zero (abs self))) ∧
        Represents later.mem (later.objs self) (task.apply zero (abs self))) ∨
      (result = (.errNoMem, .nothing) ∧ later.objs = s.objs ∧ later.mem.blocks = s.mem.blocks ∧
        Why (.errNoMem, .nothing, s.objs self) later.mem) := by
  have ends : Ends (task.run zero (s.objs self)) s.mem fun result later =>
      (exists after, result = (.ok, task.answer (abs self), after) ∧
        Represents later after (task.apply zero (abs self))) ∨
      (result = (.errNoMem, .nothing, s.objs self) ∧ later.blocks = s.mem.blocks) := by
    refine (task.ends_run (follows.invariant.holds real) allowed).mono fun _ later => Or.imp_left ?_
    exact fun ⟨after, same, tends⟩ => ⟨after, same, tends.holds.represents⟩
  exact ends_call ends why rfl fun later ran => follows.call (.op self task) ⟨real, allowed⟩ ran

/-- A call that needs room for one more leaves what it leaves on lists, or there is no such room. -/
theorem Follows.tries (follows : Follows C zero s abs) (real : (s.objs self).al.isSome = true) {task : Op α C}
    (allowed : task.Allowed (s.objs self)) (nothing : task.answer (abs self) = .nothing)
    (one : task.required (s.objs self) = some ((s.objs self).len + 1)) :
    Tries C zero s abs self task (task.apply zero (abs self)) := by
  have sized := (follows.invariant.holds real).sized
  have outcome := follows.outcome real allowed (task.allows_run sized zero one)
  rw [nothing] at outcome
  refine outcome.mono fun _ later => Or.imp_right ?_
  rintro ⟨rfl, sameObjs, sameBlocks, grew⟩
  exact ⟨rfl, sameObjs, sameBlocks, grew.denied sized (nomatch ·)⟩

theorem Follows.comes (follows : Follows C zero s abs) (real : (s.objs self).al.isSome = true) {task : Op α C}
    (allowed : task.Allowed (s.objs self)) (certain : task.Certain) :
    Comes C zero s abs self task (task.answer (abs self)) (task.apply zero (abs self)) := by
  refine (follows.outcome real allowed certain.ok).mono fun _ _ outcome => outcome.resolve_right ?_
  exact fun refused => nomatch refused.2.2.2

theorem Follows.ownOperands (follows : Follows C zero s abs) (real : (s.objs self).al.isSome = true)
    (found : (abs self)[j]? = some val) : OwnOperands C zero s abs self j val := by
  have len : (s.objs self).len = (abs self).length := (follows.invariant.holds real).len
  have inside : j < (s.objs self).len := by
    rw [len]
    exact (List.getElem?_eq_some_iff.mp found).1
  have among : forall {named : Operand α}, Points j val named ->
      Among (s.objs self) named ∧ elem? (abs self) named = some val := by
    rintro named (rfl | rfl)
    · exact ⟨inside, found⟩
    · exact ⟨trivial, rfl⟩
  constructor
  · intro named points
    have tries := follows.tries real (show (Op.push named).Allowed (s.objs self) from (among points).1) rfl rfl
    simp only [Op.apply, (among points).2, Option.toList_some] at tries
    exact tries
  · intro i upTo named points
    have tries := follows.tries real (show (Op.insert i named).Allowed (s.objs self) from ⟨upTo, (among points).1⟩)
      rfl rfl
    simp only [Op.apply, (among points).2, Option.toList_some] at tries
    exact tries
  · intro i within_ named points
    have comes := follows.comes real (show (Op.set i named).Allowed (s.objs self) from ⟨within_, (among points).1⟩)
      trivial
    simp only [Op.apply, Op.answer, (among points).2, Option.map_some, Option.getD_some] at comes
    exact comes
  · intro last back
    have comes : forall {out : Target}, Reaches (s.objs self) out -> Comes C zero s abs self (.popTo out) (.elem last)
        (putTo (abs self) last out).dropLast := by
      intro out reaches
      have comes := follows.comes real (show (Op.popTo out).Allowed (s.objs self) from
          ⟨Nat.lt_of_le_of_lt (Nat.zero_le j) inside, reaches⟩) trivial
      simp only [Op.apply, Op.answer, back, Option.map_some, Option.getD_some] at comes
      exact comes
    exact ⟨comes trivial, comes inside⟩

end Vec

/-! ## Deques -/

namespace DequeObjects

/-- `tda_deque_pop_front_to` and `tda_deque_pop_back_to` of an object. -/
def popFrontTo (α : Type) (self : Nat) (out : Target) : Run (DequeObjects α) α := do
  let (val, after) ← within (Deque.popFrontTo (← load self) out)
  store self after
  return val

def popBackTo (α : Type) (self : Nat) (out : Target) : Run (DequeObjects α) α := do
  let (val, after) ← within (Deque.popBackTo (← load self) out)
  store self after
  return val

end DequeObjects

namespace Deque

variable {α C : Type} {s : DequeObjects α} {abs : Nat -> List α} {zero : α} {self j : Nat} {val : α}

/-- The call ends, hands this out and leaves these elems. -/
def Comes (C : Type) (zero : α) (s : DequeObjects α) (abs : Nat -> List α) (self : Nat) (task : Op α C)
    (handed : Handed α C) (elems : List α) : Prop :=
  Ends ((Call.op self task).run zero) s fun result later => result = (.ok, handed) ∧
    Follows C zero later (update abs self elems) ∧ Represents later.mem (later.objs self) elems

/-- The call leaves these elems; or there was no room for one more and none could be had, and it changes nothing. -/
def Tries (C : Type) (zero : α) (s : DequeObjects α) (abs : Nat -> List α) (self : Nat) (task : Op α C)
    (elems : List α) : Prop :=
  Ends ((Call.op self task).run zero) s fun result later =>
    (result = (.ok, .nothing) ∧ Follows C zero later (update abs self elems) ∧
      Represents later.mem (later.objs self) elems) ∨
    (result = (.errNoMem, .nothing) ∧ later.objs = s.objs ∧ later.mem.blocks = s.mem.blocks ∧
      (grower α).Denied (s.objs self) ((s.objs self).len + 1) s.mem later.mem)

/-- A pop to a place hands this out and leaves these elems. -/
def Pops (C : Type) (zero : α) (s : DequeObjects α) (abs : Nat -> List α) (self : Nat) (pop : Run (DequeObjects α) α)
    (val : α) (elems : List α) : Prop :=
  Ends pop s fun given later => given = val ∧ Follows C zero later (update abs self elems) ∧
    Represents later.mem (later.objs self) elems

/-- A pointer to elem `j`, or to a copy of it elsewhere. -/
def Points (j : Nat) (val : α) (source : Source α) : Prop := source = .own j ∨ source = .outside val

/-- An elem of the deque is as good an operand as its value is from outside. -/
structure OwnOperands (C : Type) (zero : α) (s : DequeObjects α) (abs : Nat -> List α) (self j : Nat) (val : α) :
    Prop where
  pushFront : forall source, Points j val source -> Tries C zero s abs self (.pushFront source) (val :: abs self)
  pushBack : forall source, Points j val source -> Tries C zero s abs self (.pushBack source) (abs self ++ [val])
  insert : forall i, i ≤ (s.objs self).len -> forall source, Points j val source ->
    Tries C zero s abs self (.insert i source) ((abs self).take i ++ [val] ++ (abs self).drop i)
  set : forall i, i < (s.objs self).len -> forall source, Points j val source ->
    Comes C zero s abs self (.set i source) .nothing ((abs self).set i val)
  popFrontTo : forall first, (abs self).head? = some first ->
    Comes C zero s abs self .popFrontTo (.elem first) (abs self).tail ∧
    Pops C zero s abs self (DequeObjects.popFrontTo α self (.slot (slotOf (s.objs self) j))) first
      ((abs self).set j first).tail
  popBackTo : forall last, (abs self).getLast? = some last ->
    Comes C zero s abs self .popBackTo (.elem last) (abs self).dropLast ∧
    Pops C zero s abs self (DequeObjects.popBackTo α self (.slot (slotOf (s.objs self) j))) last
      ((abs self).set j last).dropLast

/-- The elem is written over elem `j`, as `set` would do it. -/
theorem ends_moveOut_own {heap : DequeMem α} {deque : Deque} {elems : List α} {k : Nat}
    (holds : Holds heap.blocks deque elems) (found : elems[k]? = some val) (inside : j < deque.len)
    {post : α -> DequeMem α -> Prop} :
    Ends (moveOut deque k (.slot (slotOf deque j))) heap post <->
      Ends (Deque.set deque j (.slot (slotOf deque k))) heap fun _ mid => post val mid := by
  have load := holds.load
  have inBlock : j < deque.cap := Nat.lt_of_lt_of_le inside load
  have taken : k < deque.cap := by
    have within_ := (List.getElem?_eq_some_iff.mp found).1
    rw [← holds.len] at within_
    exact Nat.lt_of_lt_of_le within_ load
  have atSlot : forall {post : Option α -> DequeMem α -> Prop},
      Ends (readSlot deque.data (slotOf deque k)) heap post <-> post (some val) heap := by
    intro post
    refine Iff.trans ?_ (ends_elem holds found)
    simp only [elemAt, ends_bind, ends_require, taken, true_and]
  simp only [moveOut, Deque.set, setElemAt, ends_bind, ends_assertDeque holds.asserts, ends_require, inside,
    inBlock, true_and, ends_elem holds found, ends_demand_some, ends_pure, atSlot]

/-- The operations without a status. -/
def Op.Certain : Op α C -> Prop
  | set .. | popFront | popBack | popFrontTo | popBackTo => True
  | _ => False

theorem Op.Certain.ok {task : Op α C} (certain : task.Certain) {mem : DequeMem α} {obj : Deque} :
    Allows (task.run zero obj) mem fun result _ => result.1 = .ok := by
  cases task with
  | set idx val | popFront | popBack | popFrontTo | popBackTo =>
      simp only [Op.run, allows_bind, allows_pure]
      exact fun _ _ _ => trivial
  | _ => exact absurd certain id

theorem Follows.outcome (follows : Follows C zero s abs) (real : (s.objs self).al.isSome = true) {task : Op α C}
    (allowed : task.Allowed (s.objs self)) {Why : Status × Handed α C × Deque -> DequeMem α -> Prop}
    (why : Allows (task.run zero (s.objs self)) s.mem Why) :
    Ends ((Call.op self task).run zero) s fun result later =>
      (result = (.ok, task.answer (abs self)) ∧
        Follows C zero later (update abs self (task.apply zero (abs self))) ∧
        Represents later.mem (later.objs self) (task.apply zero (abs self))) ∨
      (result = (.errNoMem, .nothing) ∧ later.objs = s.objs ∧ later.mem.blocks = s.mem.blocks ∧
        Why (.errNoMem, .nothing, s.objs self) later.mem) := by
  have ends : Ends (task.run zero (s.objs self)) s.mem fun result later =>
      (exists after, result = (.ok, task.answer (abs self), after) ∧
        Represents later after (task.apply zero (abs self))) ∨
      (result = (.errNoMem, .nothing, s.objs self) ∧ later.blocks = s.mem.blocks) := by
    refine (task.ends_run (follows.invariant.holds real) allowed).mono fun _ later => Or.imp_left ?_
    exact fun ⟨after, same, tends⟩ => ⟨after, same, tends.holds.represents⟩
  exact ends_call ends why rfl fun later ran => follows.call (.op self task) ⟨real, allowed⟩ ran

/-- A call that needs room for one more leaves what it leaves on lists, or there is no such room. -/
theorem Follows.tries (follows : Follows C zero s abs) (real : (s.objs self).al.isSome = true) {task : Op α C}
    (allowed : task.Allowed (s.objs self)) (nothing : task.answer (abs self) = .nothing)
    (one : task.required (s.objs self) = some ((s.objs self).len + 1)) :
    Tries C zero s abs self task (task.apply zero (abs self)) := by
  have sized := (follows.invariant.holds real).sized
  have outcome := follows.outcome real allowed (task.allows_run sized zero one)
  rw [nothing] at outcome
  refine outcome.mono fun _ later => Or.imp_right ?_
  rintro ⟨rfl, sameObjs, sameBlocks, grew⟩
  exact ⟨rfl, sameObjs, sameBlocks, grew.denied sized (nomatch ·)⟩

theorem Follows.comes (follows : Follows C zero s abs) (real : (s.objs self).al.isSome = true) {task : Op α C}
    (allowed : task.Allowed (s.objs self)) (certain : task.Certain) :
    Comes C zero s abs self task (task.answer (abs self)) (task.apply zero (abs self)) := by
  refine (follows.outcome real allowed certain.ok).mono fun _ _ outcome => outcome.resolve_right ?_
  exact fun refused => nomatch refused.2.2.2

/-- An elem is set to another one, and a second call follows. -/
theorem Follows.setThen (follows : Follows C zero s abs) (real : (s.objs self).al.isSome = true) {k : Nat}
    (found : (abs self)[k]? = some val) (inside : j < (s.objs self).len) {task : Op α C}
    (allowed : task.Allowed (s.objs self)) (certain : task.Certain) :
    Ends ((Call.op self (.set j (.own k) : Op α C)).run zero) s fun _ mid =>
      Ends ((Call.op self task).run zero) mid fun _ later =>
        Follows C zero later (update abs self (task.apply zero ((abs self).set j val))) ∧
        Represents later.mem (later.objs self) (task.apply zero ((abs self).set j val)) := by
  have taken : k < (s.objs self).len := by
    rw [(follows.invariant.holds real).len]
    exact (List.getElem?_eq_some_iff.mp found).1
  have sets := follows.comes real (show (Op.set j (.own k)).Allowed (s.objs self) from ⟨inside, taken⟩) trivial
  have keeps : Ends ((Call.op self (.set j (.own k) : Op α C)).run zero) s fun _ mid => mid.objs = s.objs := by
    have ends := sets.mono fun _ _ _ => trivial
    simp only [Call.run, Op.run, ends_bind, ends_load, ends_within, ends_store, ends_pure,
      update_eq_self] at ends ⊢
    exact ends
  refine (sets.and keeps).mono ?_
  rintro _ mid ⟨⟨_, followsMid, _⟩, sameObjs⟩
  have comes := followsMid.comes (sameObjs ▸ real) (sameObjs ▸ allowed) certain
  simp only [Op.apply, Source.elem?, found, Option.map_some, Option.getD_some, update_self] at comes
  refine comes.mono fun _ later done => ?_
  have next := done.2
  simp only [update_idem] at next
  exact next

theorem Follows.ownOperands (follows : Follows C zero s abs) (real : (s.objs self).al.isSome = true)
    (found : (abs self)[j]? = some val) : OwnOperands C zero s abs self j val := by
  have holds := follows.invariant.holds real
  have len : (s.objs self).len = (abs self).length := holds.len
  have inside : j < (s.objs self).len := by
    rw [len]
    exact (List.getElem?_eq_some_iff.mp found).1
  have some_ : 0 < (s.objs self).len := Nat.lt_of_le_of_lt (Nat.zero_le j) inside
  have allowed : forall {source : Source α}, Points j val source ->
      source.Allowed (s.objs self) ∧ source.elem? (abs self) = some val := by
    rintro source (rfl | rfl)
    · exact ⟨inside, found⟩
    · exact ⟨trivial, rfl⟩
  constructor
  · intro source points
    have tries := follows.tries real (show (Op.pushFront source).Allowed (s.objs self) from (allowed points).1) rfl rfl
    simp only [Op.apply, (allowed points).2, Option.toList_some, List.singleton_append] at tries
    exact tries
  · intro source points
    have tries := follows.tries real (show (Op.pushBack source).Allowed (s.objs self) from (allowed points).1) rfl rfl
    simp only [Op.apply, (allowed points).2, Option.toList_some] at tries
    exact tries
  · intro i upTo source points
    have tries := follows.tries real (show (Op.insert i source).Allowed (s.objs self) from ⟨upTo, (allowed points).1⟩)
      rfl rfl
    simp only [Op.apply, (allowed points).2, Option.toList_some] at tries
    exact tries
  · intro i within_ source points
    have comes := follows.comes real
      (show (Op.set i source).Allowed (s.objs self) from ⟨within_, (allowed points).1⟩) trivial
    simp only [Op.apply, Op.answer, (allowed points).2, Option.map_some, Option.getD_some] at comes
    exact comes
  · intro first front
    have atFront : (abs self)[0]? = some first := by rw [← List.head?_eq_getElem?, front]
    constructor
    · have comes := follows.comes real (show (Op.popFrontTo : Op α C).Allowed (s.objs self) from some_) trivial
      simp only [Op.apply, Op.answer, front, Option.map_some, Option.getD_some] at comes
      exact comes
    · have chain := follows.setThen real atFront inside (show (Op.popFront : Op α C).Allowed (s.objs self) from some_)
        trivial
      simp only [Call.run, Op.run, ends_bind, ends_load, ends_within, ends_store, ends_pure,
        update_eq_self, update_self] at chain
      simp only [Pops, DequeObjects.popFrontTo, Deque.popFrontTo, ends_bind, ends_load, ends_within, ends_store,
        ends_pure, ends_assertDeque holds.asserts, ends_require, some_, true_and,
        ends_moveOut_own holds atFront inside, update_self]
      exact chain
  · intro last back
    have atBack : (abs self)[(s.objs self).len - 1]? = some last := by rw [len, ← List.getLast?_eq_getElem?, back]
    constructor
    · have comes := follows.comes real (show (Op.popBackTo : Op α C).Allowed (s.objs self) from some_) trivial
      simp only [Op.apply, Op.answer, back, Option.map_some, Option.getD_some] at comes
      exact comes
    · have chain := follows.setThen real atBack inside (show (Op.popBack : Op α C).Allowed (s.objs self) from some_)
        trivial
      simp only [Call.run, Op.run, ends_bind, ends_load, ends_within, ends_store, ends_pure,
        update_eq_self, update_self] at chain
      simp only [Pops, DequeObjects.popBackTo, Deque.popBackTo, ends_bind, ends_load, ends_within, ends_store,
        ends_pure, ends_assertDeque holds.asserts, ends_require, some_, true_and,
        ends_moveOut_own holds atBack inside, update_self]
      exact chain

end Deque

/-! ## Both -/

/-- In every run of vecs and in every run of deques: an elem of the container is as good an operand as its value
is from outside, whether or not the block grows and whichever side moves, and `out` may be an elem as well.  A call
is refused only where the block was full and no larger one could be had, and then it changes nothing. -/
theorem own_operands (C : Type) {α : Type} (zero : α) :
    (forall (s : VecObjects α) (abs : Nat -> List α) (self j : Nat) (val : α), Vec.Follows C zero s abs ->
      (s.objs self).al.isSome = true -> (abs self)[j]? = some val -> Vec.OwnOperands C zero s abs self j val) ∧
    forall (s : DequeObjects α) (abs : Nat -> List α) (self j : Nat) (val : α), Deque.Follows C zero s abs ->
      (s.objs self).al.isSome = true -> (abs self)[j]? = some val -> Deque.OwnOperands C zero s abs self j val :=
  ⟨fun _ _ _ _ _ follows real found => follows.ownOperands real found,
    fun _ _ _ _ _ follows real found => follows.ownOperands real found⟩

theorem own_operands_wrapped : (exists abs, Vec.OwnOperands Unit 0 Vec.shuffled abs 0 1 4) ∧
    exists abs, Deque.OwnOperands Unit 0 Deque.wrapped abs 0 2 4 := by
  rcases Vec.shuffled_follows with ⟨lists, ran, contents⟩
  rcases Deque.wrapped_follows with ⟨rings, ranToo, wraps⟩
  exact ⟨⟨lists, (own_operands Unit 0).1 _ _ _ _ _ ran rfl (by rw [contents]; rfl)⟩,
    rings, (own_operands Unit 0).2 _ _ _ _ _ ranToo rfl (by rw [wraps]; rfl)⟩

end TerseDsa
