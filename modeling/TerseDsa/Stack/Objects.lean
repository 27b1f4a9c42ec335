import TerseDsa.Containers.Adaptors
import TerseDsa.Stack.Model
import TerseDsa.Vec.Requests

namespace TerseDsa

open Foundation Run

/-!
# Stacks serve the newest elem first

Stacks are numbered variables over one memory.  A program of calls is run and,
beside it, the same program on lists whose head is the top.  What a stack hands
out to become a vec is somebody else's from then on, who may do with that block
as they like.
-/

namespace Stack

open Objects StackObjects Adaptor

variable {α : Type} {heap : VecMem α} {self : Stack} {stack : List α} {s later : StackObjects α}
  {abs : Nat -> List α} {others : Blocks AlTag (List (Option α))}

/-! ## Operations on one stack -/

/-- The operations on one stack, with their arguments; slots count from the bottom. -/
inductive Op (α : Type) where
  | top
  | setTop (val : α)
  | push (val : Operand α)
  | extend (src : SpanView α)
  | pop
  | popTo (out : Target)
  | clear
  | reserve (newCap : Nat)
  | shrinkToFit

namespace Op

/-- What the caller has to see to. -/
def Allowed (self : Stack) : Op α -> Prop
  | top | setTop _ | pop => 0 < self.vec.len
  | push val => Vec.Among self.vec val
  | extend src => self.vec.elem = src.elem
  | popTo out => 0 < self.vec.len ∧ Vec.Reaches self.vec out
  | clear | reserve _ | shrinkToFit => True

/-- Run it; functions without a status succeed. -/
def run : Op α -> Stack -> Run (VecMem α) (Status × Option α × Stack)
  | top, self => do
      let val ← Stack.top self
      return (.ok, some val, self)
  | setTop val, self => do
      Stack.setTop self val
      return (.ok, none, self)
  | push val, self => do
      let (st, after) ← Stack.push self val
      return (st, none, after)
  | extend src, self => do
      let (st, after) ← Stack.extend self src
      return (st, none, after)
  | pop, self => do
      return (.ok, none, ← Stack.pop self)
  | popTo out, self => do
      let (val, after) ← Stack.popTo self out
      return (.ok, some val, after)
  | clear, self => do
      return (.ok, none, ← Stack.clear self)
  | reserve newCap, self => do
      let (st, after) ← Stack.reserve α self newCap
      return (st, none, after)
  | shrinkToFit, self => do
      let (st, after) ← Stack.shrinkToFit α self
      return (st, none, after)

/-- The same operation on a list whose head is the top. -/
def apply (stack : List α) : Op α -> List α
  | setTop val => val :: stack.tail
  | push val => (Vec.elem? stack.reverse val).toList ++ stack
  | extend src => src.elems.reverse ++ stack
  | pop => stack.tail
  | popTo out => ((stack.head?.map fun top => (Vec.putTo stack.reverse top out).reverse).getD stack).tail
  | clear => []
  | top | reserve _ | shrinkToFit => stack

/-- What it hands out. -/
def answer (stack : List α) : Op α -> Option α
  | top | popTo _ => stack.head?
  | _ => none

/-- How many elems it asks room for. -/
def required (self : Stack) : Op α -> Option Nat
  | push _ => some (self.vec.len + 1)
  | extend src => some (self.vec.len + src.elems.length)
  | reserve newCap => some newCap
  | shrinkToFit => some self.vec.len
  | top | setTop _ | pop | popTo _ | clear => none

end Op

/-- The functions of a stack; its list has the top in front, and its vec has it last. -/
@[reducible] def adaptor (α : Type) : Adaptor α Stack Vec (Op α) where
  wrap := asVec
  al self := self.vec.al
  elem self := self.vec.elem
  data self := self.vec.data
  inert := inert
  init := init
  initCap := initCap α
  fromData := fromData
  fromSpan := fromSpan
  copy := copy α
  copyWith := copyWith α
  deinit := deinit α
  into := intoVec
  copyAssign := StackObjects.copyAssign α
  moveAssign := StackObjects.moveAssign α
  swap := StackObjects.swap α
  run := Op.run
  Allowed := Op.Allowed
  grower := Vec.grower α
  required := Op.required
  order := List.reverse
  apply := Op.apply
  answer := Op.answer

theorem Op.done {op : Op α} {after : Stack} {later : VecMem α}
    (tends : Vec.Tends heap.blocks later.blocks self.vec after.vec (op.apply stack).reverse) :
    (adaptor α).Done Vec.kind heap self stack op (.ok, op.answer stack, after) later :=
  Or.inl ⟨after, rfl, Or.inr tends.holds, tends.evolves, tends.al⟩

theorem ends_assertStack {S : Type} {state : S} (real : self.vec.al.isSome = true) {post : Unit -> S -> Prop} :
    Ends (assertStack self) state post <-> post () state := by
  simp only [assertStack, ends_require, real, true_and]

namespace Op

/-- Every operation does to the list what it should, whatever the allocator answers. -/
theorem ends_run (op : Op α) (holds : Vec.Holds heap.blocks self.vec stack.reverse) (allowed : op.Allowed self) :
    Ends (op.run self) heap ((adaptor α).Done Vec.kind heap self stack op) := by
  have real := holds.real
  have some_ : 0 < self.vec.len -> exists first rest, stack = first :: rest := by
    intro positive
    have len := holds.len
    rw [List.length_reverse] at len
    exact List.exists_cons_of_length_pos (len ▸ positive)
  cases op with
  | top =>
      rcases some_ allowed with ⟨first, rest, rfl⟩
      have positive : 0 < self.vec.len := allowed
      have split : Vec.Holds heap.blocks self.vec (rest.reverse ++ [first]) := List.reverse_cons ▸ holds
      simp only [run, Stack.top, ends_bind, ends_assertStack real, ends_require, positive, true_and,
        Vec.ends_back split, ends_pure]
      exact done (Vec.Tends.refl holds)
  | setTop val =>
      rcases some_ allowed with ⟨first, rest, rfl⟩
      have positive : 0 < self.vec.len := allowed
      have len := holds.len
      rw [List.length_reverse, List.length_cons] at len
      simp only [run, Stack.setTop, ends_bind, ends_assertStack real, ends_require, positive, true_and]
      apply Vec.ends_setElem holds (by omega)
      intro later tends
      rw [List.reverse_cons, len, Nat.add_sub_cancel, List.set_append_right _ _ (Nat.le_of_eq List.length_reverse),
        List.length_reverse, Nat.sub_self, List.set_cons_zero, ← List.reverse_cons] at tends
      exact (ends_pure _ _ _).mpr (done tends)
  | push val =>
      rcases holds.names allowed with ⟨given, value, names⟩
      simp only [run, Stack.push, ends_bind, ends_assertStack real]
      apply Vec.ends_push holds names
      · intro later same
        simp only [ends_assertStack real, ends_pure]
        exact Or.inr ⟨rfl, same⟩
      · intro after later tends
        have realAfter : (⟨after⟩ : Stack).vec.al.isSome = true := tends.holds.real
        simp only [ends_assertStack realAfter, ends_pure]
        refine done ?_
        rw [apply, value, Option.toList_some, List.singleton_append, List.reverse_cons]
        exact tends
  | extend src =>
      have alike : self.vec.elem = src.elem := allowed
      simp only [run, Stack.extend, ends_bind, ends_assertStack real, ends_require, alike, true_and]
      apply Vec.ends_extend holds alike
      · intro later same
        simp only [ends_assertStack real, ends_pure]
        exact Or.inr ⟨rfl, same⟩
      · intro after later tends
        have realAfter : (⟨after⟩ : Stack).vec.al.isSome = true := tends.holds.real
        simp only [ends_assertStack realAfter, ends_pure]
        refine done ?_
        rw [apply, List.reverse_append, List.reverse_reverse]
        exact tends
  | pop =>
      rcases some_ allowed with ⟨first, rest, rfl⟩
      have positive : 0 < self.vec.len := allowed
      have split : Vec.Holds heap.blocks self.vec (rest.reverse ++ [first]) := List.reverse_cons ▸ holds
      simp only [run, Stack.pop, ends_bind, ends_assertStack real, ends_require, positive, true_and]
      apply Vec.ends_pop split
      exact fun after tends => (ends_pure _ _ _).mpr ((ends_pure _ _ _).mpr (done tends))
  | popTo out =>
      rcases some_ allowed.1 with ⟨first, rest, rfl⟩
      have positive : 0 < self.vec.len := allowed.1
      have split : Vec.Holds heap.blocks self.vec (rest.reverse ++ [first]) := List.reverse_cons ▸ holds
      simp only [run, Stack.popTo, ends_bind, ends_assertStack real, ends_require, positive, true_and]
      apply Vec.ends_popTo split allowed.2
      intro after later tends
      have realAfter : (⟨after⟩ : Stack).vec.al.isSome = true := tends.holds.real
      simp only [ends_assertStack realAfter, ends_pure]
      refine done ?_
      rw [apply, List.head?_cons, Option.map_some, Option.getD_some, List.tail_reverse, List.reverse_reverse,
        List.reverse_cons]
      exact tends
  | clear =>
      simp only [run, Stack.clear, ends_bind, ends_assertStack real]
      apply Vec.ends_clear holds
      exact fun after tends => (ends_pure _ _ _).mpr ((ends_pure _ _ _).mpr (done tends))
  | reserve newCap =>
      simp only [run, Stack.reserve, ends_bind, ends_assertStack real]
      apply Vec.ends_reserve holds
      · intro later same
        simp only [ends_assertStack real, ends_pure]
        exact Or.inr ⟨rfl, same⟩
      · intro after later tends _ _
        have realAfter : (⟨after⟩ : Stack).vec.al.isSome = true := tends.holds.real
        simp only [ends_assertStack realAfter, ends_pure]
        exact done tends
  | shrinkToFit =>
      simp only [run, Stack.shrinkToFit, ends_bind, ends_assertStack real]
      apply Vec.ends_shrinkToFit holds
      · intro later same
        simp only [ends_assertStack real, ends_pure]
        exact Or.inr ⟨rfl, same⟩
      · intro after later tends
        have realAfter : (⟨after⟩ : Stack).vec.al.isSome = true := tends.holds.real
        simp only [ends_assertStack realAfter, ends_pure]
        exact done tends

/-- An operation fails only where its vec has no room and gets none. -/
theorem allows_run (op : Op α) (sized : (Vec.grower α).Sized self.vec) :
    Allows (op.run self) heap fun result later => result.1 ≠ .ok ->
      exists need, op.required self = some need ∧ (Vec.grower α).Denied self.vec need heap later := by
  cases op with
  | top | setTop val | pop | popTo out | clear =>
      simp only [run, allows_bind, allows_pure]
      exact fun _ _ _ failed => absurd rfl failed
  | push val =>
      simp only [run, Stack.push, assertStack, allows_bind, allows_require, allows_pure]
      intro _
      exact (Vec.allows_push sized).mono fun _ _ grew _ failed => ⟨_, rfl, grew.denied sized failed⟩
  | extend src =>
      simp only [run, Stack.extend, assertStack, allows_bind, allows_require, allows_pure]
      intro _ _
      exact (Vec.allows_extend sized).mono fun _ _ grew _ failed => ⟨_, rfl, grew.denied sized failed⟩
  | reserve newCap =>
      simp only [run, Stack.reserve, assertStack, allows_bind, allows_require, allows_pure]
      intro _
      exact (Vec.allows_reserve sized).mono fun _ _ grew _ failed => ⟨_, rfl, grew.denied sized failed⟩
  | shrinkToFit =>
      simp only [run, Stack.shrinkToFit, assertStack, allows_bind, allows_require, allows_pure]
      intro _
      exact (Vec.allows_shrinkToFit sized).mono fun _ _ grew _ failed => ⟨_, rfl, grew.denied sized failed⟩

end Op

/-- A stack does to its vec what it does to its list. -/
theorem meets : (adaptor α).Meets Vec.kind (VecObjects.handling α) (Vec.copyOver α) where
  sound := Vec.sound
  inert := rfl
  real _ := rfl
  alike _ _ same := decide_eq_true same
  owned _ _ := rfl
  order_nil := rfl
  init heap elem al isType real := by
    simp only [init, ends_bind, ends_require, isType, real, true_and, Vec.ends_init isType real, ends_pure]
    exact Or.inr (Vec.Holds.of_bare real isType rfl rfl rfl)
  initCap heap cap elem al isType real := by
    simp only [initCap, ends_bind, ends_require, isType, real, true_and, ends_pure]
    apply Vec.ends_initCap isType real
    · exact fun later same => Or.inr ⟨rfl, same⟩
    · exact fun vec later born => Or.inl ⟨⟨vec⟩, rfl, Or.inr born.holds, born.evolves⟩
  initCap_asks heap cap elem al := by
    simp only [initCap, allows_bind, allows_require, allows_pure]
    exact fun _ _ => Vec.allows_initImpl _ _
  fromData heap data elem al isType real := by
    simp only [fromData, ends_bind, ends_require, isType, real, true_and, ends_pure]
    apply Vec.ends_fromData isType real
    · exact fun later same => Or.inr ⟨rfl, same⟩
    · intro vec later born
      rw [← data.reverse_reverse] at born
      exact Or.inl ⟨⟨vec⟩, rfl, Or.inr born.holds, born.evolves⟩
  fromData_asks heap data elem al := by
    simp only [fromData, allows_bind, allows_require, allows_pure]
    exact fun _ _ => Vec.allows_fromImpl _ _
  fromSpan _ _ := rfl
  copyWith heap self list al kept realSelf real := by
    simp only [copyWith, ends_bind, ends_assertStack realSelf, ends_require, real, true_and, ends_pure]
    apply Vec.ends_copyWith (kept.holds realSelf) real
    · exact fun later same => Or.inr ⟨rfl, same⟩
    · exact fun vec later born => Or.inl ⟨⟨vec⟩, rfl, Or.inr born.holds, born.evolves⟩
  copyWith_asks heap self al := by
    simp only [copyWith, assertStack, allows_bind, allows_require, allows_pure]
    exact fun _ _ => Vec.allows_copyWith
  copy _ := rfl
  deinit _ := rfl
  into _ := rfl
  replaced heap self other list rest kept keptOther realSelf realOther alike apart := by
    apply Vec.ends_copyOver (kept.holds realSelf) (keptOther.holds realOther) alike apart
    · exact fun later same => Or.inr ⟨rfl, same⟩
    · exact fun after later tends => Or.inl ⟨rfl, Or.inr tends.holds, tends.evolves, tends.al⟩
  replaced_asks heap self other list rest kept keptOther realSelf realOther alike :=
    (Vec.allows_copyOver (kept.holds realSelf).sized other.vec).mono fun _ _ grew =>
      grew.denied (kept.holds realSelf).sized
  copyAssign _ _ := rfl
  moveAssign _ _ := rfl
  swap _ _ := rfl
  run heap self list op kept real allowed := op.ends_run (kept.holds real) allowed
  run_asks heap self list op kept real := op.allows_run (kept.holds real).sized

/-! ## The newest elem first -/

/-- How a stack stands for a list whose head is the top. -/
structure Represents (heap : VecMem α) (self : Stack) (stack : List α) : Prop where
  len : Ends (Stack.len self) heap fun len later => len = stack.length ∧ later = heap
  top : forall first, stack.head? = some first -> Ends (Stack.top self) heap fun val later =>
    val = first ∧ later = heap
  span : Ends (Stack.toSpan self) heap fun s later => later = heap ∧ Span.Holds heap.blocks s stack.reverse

theorem represents_of_holds (holds : Vec.Holds heap.blocks self.vec stack.reverse) : Represents heap self stack := by
  have real := holds.real
  have len := holds.len
  rw [List.length_reverse] at len
  constructor
  · simp only [Stack.len, ends_bind, ends_assertStack real, ends_pure]
    exact ⟨len, trivial⟩
  · intro first at_
    rcases List.head?_eq_some_iff.mp at_ with ⟨rest, rfl⟩
    have positive : 0 < self.vec.len := len ▸ Nat.succ_pos _
    have split : Vec.Holds heap.blocks self.vec (rest.reverse ++ [first]) := List.reverse_cons ▸ holds
    simp only [Stack.top, ends_bind, ends_assertStack real, ends_require, positive, true_and,
      Vec.ends_back split]
  · simp only [Stack.toSpan, ends_bind, ends_assertStack real]
    exact holds.represents.span

/-- Push one elem after another, and pop as many; nothing if a push was refused. -/
def roundTrip (self : Nat) : List α -> Run (StackObjects α) (Option (List α))
  | [] => return some []
  | val :: rest => do
      let (st, _) ← (Adaptor.Call.op self (.push (.outside val))).run (adaptor α)
      if st ≠ .ok then
        return none
      match ← roundTrip self rest with
      | none => return none
      | some given => do
          let (_, last) ← (Adaptor.Call.op self (.popTo .outside)).run (adaptor α)
          return some (given ++ last.toList)

theorem ends_op_real (invariant : (adaptor α).Invariant Vec.kind others s abs) {self : Nat} {task : Op α}
    (real : (s.objs self).vec.al.isSome = true) (allowed : task.Allowed (s.objs self)) :
    Ends ((Adaptor.Call.op self task).run (adaptor α)) s fun _ later =>
      (later.objs self).vec.al.isSome = true := by
  simp only [Adaptor.Call.run, ends_bind, ends_load, ends_within, ends_store, ends_pure, Function.update_self]
  refine (meets.run s.mem _ _ task (invariant.held self) real allowed).mono ?_
  rintro _ mem (⟨after, rfl, tends⟩ | ⟨rfl, _⟩)
  · exact (congrArg Option.isSome tends.al).trans real
  · exact real

theorem apply_push_popTo (self : Nat) (val : α) :
    Adaptor.Call.apply (adaptor α) (Adaptor.Call.apply (adaptor α) abs (.op self (.push (.outside val))))
      (.op self (.popTo .outside)) = abs := by
  have popped : Op.apply (val :: abs self) (.popTo .outside) = abs self := congrArg List.tail (List.reverse_reverse _)
  change Function.update (Function.update abs self (val :: abs self)) self
    (Op.apply (Function.update abs self (val :: abs self) self) (.popTo .outside)) = abs
  rw [Function.update_self, popped, Function.update_idem, Function.update_eq_self]

/-- What was pushed comes out in the opposite order, and the stack is what it was. -/
theorem ends_roundTrip (self : Nat) (vals : List α) (follows : (adaptor α).Follows others s abs)
    (real : (s.objs self).vec.al.isSome = true) :
    Ends (roundTrip self vals) s fun given later =>
      given = none ∨ (given = some vals.reverse ∧ (adaptor α).Follows others later abs ∧
        (later.objs self).vec.al.isSome = true) := by
  induction vals generalizing s abs with
  | nil => exact (ends_pure _ _ _).mpr (Or.inr ⟨rfl, follows, real⟩)
  | cons val rest ih =>
      simp only [roundTrip, ends_bind]
      have allowed : (Adaptor.Call.op self (Op.push (.outside val))).Allowed (adaptor α) s := ⟨real, trivial⟩
      refine ((follows.step meets _ allowed).and_allows
        (ends_op_real (follows.invariant meets) real allowed.2).allows).mono ?_
      rintro ⟨st, given⟩ pushed ⟨⟨next, same | ⟨_, same, _⟩⟩, realNext⟩
      · cases same
        simp only [if_granted, if_true, ends_bind] at next ⊢
        refine (ih next realNext).mono ?_
        rintro given middle (rfl | ⟨rfl, again, realAgain⟩)
        · exact (ends_pure _ _ _).mpr (Or.inl rfl)
        · have list : Adaptor.Call.apply (adaptor α) abs (.op self (.push (.outside val))) self = val :: abs self :=
            Function.update_self _ _ _
          have held := ((again.invariant meets).held self).holds realAgain
          have len := held.len
          rw [list, List.length_reverse] at len
          have popped : (Adaptor.Call.op self (Op.popTo .outside)).Allowed (adaptor α) middle :=
            ⟨realAgain, len ▸ Nat.succ_pos _, trivial⟩
          simp only [ends_bind]
          refine ((again.step meets _ popped).and_allows
            (ends_op_real (again.invariant meets) realAgain popped.2).allows).mono ?_
          rintro ⟨st, last⟩ later ⟨⟨final, same | ⟨⟨_, impossible, _⟩, _⟩⟩, realFinal⟩
          · cases same
            have handed : Adaptor.Call.answer (adaptor α)
                (Adaptor.Call.apply (adaptor α) abs (.op self (.push (.outside val))))
                (.op self (.popTo .outside)) = some val := congrArg List.head? list
            rw [if_pos rfl, apply_push_popTo] at final
            rw [handed, ends_pure, List.reverse_cons]
            exact Or.inr ⟨rfl, final, realFinal⟩
          · cases impossible
      · cases same
        simp only [if_refused, ends_pure, true_or]

/-- In every run each stack stands for the list that the same run computes, newest elem first.
Every call that is allowed ends and hands out what it does on lists; one that has not the room
it needs and cannot have it is refused, and then leaves all as it was.  What is pushed is popped in the
opposite order, a stack gives its block away as the vec of its elems, and no call touches a
block that is not the stacks'. -/
theorem last_in_first_out (follows : (adaptor α).Follows others s abs) :
    (forall var, (s.objs var).vec.al.isSome = true -> Represents s.mem (s.objs var) (abs var)) ∧
    (forall addr, others addr ≠ none -> s.mem.blocks addr = others addr) ∧
    (forall call : Adaptor.Call α (Op α), call.Allowed (adaptor α) s ->
      Ends (call.run (adaptor α)) s fun result later =>
      (adaptor α).Follows others later (if result.1 = .ok then call.apply (adaptor α) abs else abs) ∧
      (result = (.ok, call.answer (adaptor α) abs) ∨ (call.Refused (adaptor α) s later ∧ result = (.errNoMem, none) ∧
        later.objs = s.objs ∧ later.mem.blocks = s.mem.blocks))) ∧
    forall self, (s.objs self).vec.al.isSome = true ->
      (forall vals : List α, Ends (roundTrip self vals) s fun given later =>
        given = none ∨ (given = some vals.reverse ∧ (adaptor α).Follows others later abs)) ∧
      Ends ((adaptor α).take self) s fun vec later => later.mem = s.mem ∧ vec = (s.objs self).vec ∧
        Vec.Represents later.mem vec (abs self).reverse ∧
        (adaptor α).Follows (handedOver others s.mem.blocks vec.data.toList) later (Function.update abs self []) := by
  have invariant := follows.invariant meets
  have holds : forall {var}, (s.objs var).vec.al.isSome = true -> Vec.Holds _ _ _ := fun {var} real =>
    (invariant.held var).holds real
  refine ⟨fun var real => represents_of_holds (holds real), invariant.kept,
    fun call allowed => follows.step meets call allowed, fun self real => ⟨fun vals => ?_, ?_⟩⟩
  · refine (ends_roundTrip self vals follows real).mono ?_
    rintro given later (none_ | ⟨all, again, _⟩)
    · exact Or.inl none_
    · exact Or.inr ⟨all, again⟩
  · rcases invariant.ends_take meets real with ⟨vec, later, ran, rfl, same, _⟩
    refine ⟨_, later, ran, same, rfl, ?_, follows.taken self real ran⟩
    exact same ▸ (holds real).represents

/-- The state after a call, if it ended. -/
def after (call : Adaptor.Call Nat (Op Nat)) (s : StackObjects Nat) : StackObjects Nat :=
  ((call.run (adaptor Nat) s).map Prod.snd).getD s

/-- A stack of 1, 2, 3 loses its top and gets 4. -/
def replaced : StackObjects Nat :=
  after (.op 0 (.push (.outside 4))) (after (.op 0 .pop)
    (after (.make 0 (.fromData [1, 2, 3] ⟨4, 4⟩ (some 0))) ⟨fun _ => inert, ⟨fun _ => none, some, 0⟩⟩))

theorem replaced_follows : exists abs, (adaptor Nat).Follows (fun _ => none) replaced abs ∧ abs 0 = [4, 2, 1] := by
  have made := (Adaptor.Follows.start some : (adaptor Nat).Follows _ _ _).call
    (.make 0 (.fromData [1, 2, 3] ⟨4, 4⟩ (some 0))) ⟨rfl, by decide, rfl⟩ rfl
  have popped := made.call (.op 0 .pop) ⟨rfl, (by decide : 0 < 3)⟩ rfl
  have pushed := popped.call (.op 0 (.push (.outside 4))) ⟨rfl, trivial⟩ rfl
  exact ⟨_, pushed, rfl⟩

theorem last_in_first_out_replaced : Represents replaced.mem (replaced.objs 0) [4, 2, 1] := by
  rcases replaced_follows with ⟨abs, follows, contents⟩
  rw [← contents]
  exact (last_in_first_out follows).1 0 rfl

end Stack
end TerseDsa
