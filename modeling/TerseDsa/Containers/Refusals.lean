import TerseDsa.Containers.Discipline
import TerseDsa.HMap.Provision
import TerseDsa.List.Refinement
import TerseDsa.PQueue.Objects
import TerseDsa.Vec.Requests
import TerseDsa.Deque.Requests

namespace TerseDsa

open Foundation Run

/-!
# Failed growth changes nothing

Whichever request of a call is refused, the first one or a later one, a call
that reports an error has left every variable and every live block as it was:
the contents, the lengths, the room, the allocators and the comparators; and no
block is left behind.
-/

/-- From every state that is reached every call that is allowed ends, in such a state again, and unless it reports
success what is kept is what it was. -/
def FailsCleanly {S T Call Result : Type} (reached : S -> Prop) (allowed : S -> Call -> Prop)
    (run : Call -> Run S Result) (status : Result -> Status) (kept : S -> T) : Prop :=
  forall s, reached s -> forall call, allowed s call -> Ends (run call) s fun result later =>
    reached later ∧ (status result ≠ .ok -> kept later = kept s)

/-- What a program of objects of one kind keeps: the objects and the live blocks. -/
def Foundation.Objects.kept {Obj Tag Cell : Type} (s : Objects Obj Tag Cell) : (Nat -> Obj) × Blocks Tag Cell :=
  (s.objs, s.mem.blocks)

namespace Containers

variable {α C : Type} {zero : α}

/-- What a program of containers keeps: the objects of each kind and the live blocks. -/
def kept (s : Containers α) : ((family : Family) -> Nat -> family.Obj) × Blocks AlTag (List (Option α) ⊕ List Word) :=
  (s.objs, s.mem.blocks)

theorem Call.fails_cleanly :
    FailsCleanly (Reaches C zero) (fun s (call : Call α C) => call.Allowed s) (Call.run zero) id kept := by
  intro s reaches call allowed
  rcases reaches.invariant with ⟨forms, invariant⟩
  rcases invariant.run call allowed with ⟨st, later, ran, _, unchanged⟩
  exact ⟨st, later, ran, reaches.call call allowed ran, fun failed => Prod.ext_iff.mpr (unchanged failed)⟩

end Containers

namespace TdaList

variable {α C : Type}

theorem Call.fails_cleanly :
    FailsCleanly (Reachable C) (fun s (call : Call α C) => call.Allowed s) Call.run Prod.fst Objects.kept := by
  intro s reachable call allowed
  rcases reachable.invariant with ⟨abs, invariant⟩
  rcases invariant.run call allowed with ⟨result, later, ran, outcome⟩
  refine ⟨result, later, ran, reachable.call call allowed ran, fun failed => ?_⟩
  rcases outcome with ⟨_, _, _, same, _⟩ | ⟨_, _, unchanged⟩
  · exact absurd (congrArg Prod.fst same) failed
  · exact Prod.ext_iff.mpr unchanged

end TdaList

namespace PQueue

variable {α C : Type}

theorem Call.fails_cleanly (world : C) :
    FailsCleanly (fun s => exists abs, Follows s abs) (fun s (call : Call α C) => call.Allowed s) (run world) Prod.fst
      Objects.kept := by
  rintro s ⟨abs, follows⟩ call allowed
  rcases follows.invariant.run call world allowed with ⟨⟨st, handed, left⟩, later, ran, outcome⟩
  refine ⟨(st, handed, left), later, ran, ?_⟩
  rcases outcome with ⟨ok, next, effect, _⟩ | ⟨same, unchanged⟩
  · cases ok
    exact ⟨⟨next, follows.call call world allowed ran effect⟩, fun failed => absurd rfl failed⟩
  · have failed : st ≠ .ok := by
      cases same
      decide
    exact ⟨⟨abs, follows.refused call world allowed ran failed⟩, fun _ => Prod.ext_iff.mpr unchanged⟩

end PQueue

namespace Provision

variable {K V C : Type}

theorem fails_cleanly :
    FailsCleanly (Reachable C) (fun s (task : Provision K V) => (task.call : Call K V C).Allowed s) run id
      Objects.kept := by
  intro s reachable task allowed
  rcases reachable.invariant with ⟨tables, invariant⟩
  rcases HMap.Invariant.provided invariant task allowed with ⟨st, later, ran, unchanged⟩
  exact ⟨st, later, ran, task.reaches reachable allowed ran, fun failed => Prod.ext_iff.mpr (unchanged failed)⟩

end Provision

namespace Containers

/-- Failed growth changes nothing, of vecs, deques, arrs and bitsets, of lists, of queues, and of the maps and the
sets that are built, assigned or given room. -/
theorem failed_growth_changes_nothing {α K V C : Type} (zero : α) (world : C) :
    FailsCleanly (Reaches C zero) (fun s (call : Call α C) => call.Allowed s) (Call.run zero) id kept ∧
    FailsCleanly (TdaList.Reachable C) (fun s (call : TdaList.Call α C) => call.Allowed s) TdaList.Call.run Prod.fst
      Objects.kept ∧
    FailsCleanly (fun s => exists abs, PQueue.Follows s abs) (fun s (call : PQueue.Call α C) => call.Allowed s)
      (PQueue.Call.run world) Prod.fst Objects.kept ∧
    FailsCleanly (Reachable C) (fun s (task : Provision K V) => (task.call : TerseDsa.Call K V C).Allowed s)
      Provision.run id Objects.kept :=
  ⟨Call.fails_cleanly, TdaList.Call.fails_cleanly, PQueue.Call.fails_cleanly world, Provision.fails_cleanly⟩

/-- A vec of 1, 2, 3 in a block that is full, on an allocator that grants nothing more. -/
def full : Containers Nat :=
  (Call.vec (.make 0 (.fromData [1, 2, 3] ⟨4, 4⟩ (some 0)))).after (initial fun ask => if ask = 0 then some 0 else none)

theorem full_reaches : Reaches Unit 0 full :=
  (Reaches.start _ : Reaches Unit (0 : Nat) (initial fun ask => if ask = 0 then some 0 else none)).call
    (.vec (.make 0 (.fromData [1, 2, 3] ⟨4, 4⟩ (some 0)))) ⟨rfl, by decide, rfl⟩ rfl

/-- A push asks for twice the room, and for just enough, three hooks each time, and is refused every time. -/
theorem failed_growth_changes_nothing_full : exists later,
    (Call.vec (.op 0 (.push (.outside 4))) : Call Nat Unit).run 0 full = some (.errNoMem, later) ∧
      later.mem.asked = 7 ∧ later.kept = full.kept := by
  have pushed := (failed_growth_changes_nothing (K := Nat) (V := Nat) (0 : Nat) ()).1 full full_reaches
    (.vec (.op 0 (.push (.outside 4)))) ⟨rfl, trivial⟩
  exact ⟨_, rfl, rfl, (pushed.of_eq rfl).2 (by decide)⟩

end Containers

/-!
## The sizes that vecs and deques ask for

Both grow alike: the doubled size saturates and may overflow, be refused or
be more than there is, and then the exact one is tried.
-/

/-- Whatever the allocator answers, an operation on a vec or a deque asks for exactly the bytes of at least the
elems it needs, and gives up only where these cannot be counted or were refused. -/
theorem growth_never_wraps {α C : Type} (zero : α) :
    (forall (heap : VecMem α) (self : Vec) (elems : List α) (op : Vec.Op α C) (need : Nat),
      Vec.Holds heap.blocks self elems -> op.Allowed self -> op.required self = some need ->
        Ends (op.run zero self) heap fun result later => Vec.Grown self need heap result.1 result.2.2 later) ∧
    (forall (heap : VecMem α) (self other : Vec) (elems rest : List α), Vec.Holds heap.blocks self elems ->
      Vec.Holds heap.blocks other rest -> self.elem = other.elem ->
      (forall addr, addr ∈ other.data.toList -> addr ∉ self.data.toList) ->
        Ends (Vec.copyOver α self other) heap fun result later =>
          Vec.Grown self other.len heap result.1 result.2 later) ∧
    (forall (heap : DequeMem α) (self : Deque) (elems : List α) (op : Deque.Op α C) (need : Nat),
      Deque.Holds heap.blocks self elems -> op.Allowed self -> op.required self = some need ->
        Ends (op.run zero self) heap fun result later => Deque.Grown self need heap result.1 result.2.2 later) ∧
    (forall (heap : DequeMem α) (self other : Deque) (elems rest : List α), Deque.Holds heap.blocks self elems ->
      Deque.Holds heap.blocks other rest -> self.elem = other.elem ->
      (forall addr, addr ∈ other.data.toList -> addr ∉ self.data.toList) ->
        Ends (Deque.copyOver α self other) heap fun result later =>
          Deque.Grown self other.len heap result.1 result.2 later) := by
  refine ⟨?_, ?_, ?_, ?_⟩
  · intro heap self elems op need holds allowed needs
    have ends : Ends (op.run zero self) heap _ := op.ends_run holds allowed
    exact (ends.and_allows (op.allows_run holds.sized zero needs)).mono fun _ _ both => both.2
  · intro heap self other elems rest holds source same apart
    have ends : Ends (Vec.copyOver α self other) heap fun _ _ => True :=
      Vec.ends_copyOver holds source same apart (fun _ _ => trivial) fun _ _ _ => trivial
    exact (ends.and_allows (Vec.allows_copyOver holds.sized other)).mono fun _ _ both => both.2
  · intro heap self elems op need holds allowed needs
    have ends : Ends (op.run zero self) heap _ := op.ends_run holds allowed
    exact (ends.and_allows (op.allows_run holds.sized zero needs)).mono fun _ _ both => both.2
  · intro heap self other elems rest holds source same apart
    have ends : Ends (Deque.copyOver α self other) heap fun _ _ => True :=
      Deque.ends_copyOver holds source same apart (fun _ _ => trivial) fun _ _ _ => trivial
    exact (ends.and_allows (Deque.allows_copyOver holds.sized source.sized same)).mono fun _ _ both => both.2

/-! ## Near the limit -/

/-- Four elems of 2 ^ 61 bytes; eight would be too many, five are not. -/
def hugeVec : Vec := ⟨some 1, 4, 4, ⟨2 ^ 61, 1⟩, some 0⟩

def hugeDeque : Deque := ⟨some 1, 4, 4, 0, ⟨2 ^ 61, 1⟩, some 0⟩

/-- Their block, with an allocator that refuses every other request. -/
def hugeMem : AlHeap (List (Option Unit)) where
  blocks := fun addr => if addr = 1 then some ⟨(some 0, ⟨2 ^ 61 * 4, 1⟩), List.replicate 4 (some ())⟩ else none
  answers := fun n => if n % 2 = 0 then none else some (n + 2)
  asked := 0

theorem hugeVec_holds : Vec.Holds hugeMem.blocks hugeVec [(), (), (), ()] :=
  ⟨⟨[], rfl, by decide, by decide, rfl, Or.inr ⟨1, rfl, by decide, rfl⟩⟩, rfl⟩

theorem hugeDeque_holds : Deque.Holds hugeMem.blocks hugeDeque [(), (), (), ()] := by
  have ring : Deque.Ring hugeMem.blocks { hugeDeque with data := some 1, cap := 4, head := 0 }
      (List.replicate 4 (some ())) :=
    Deque.Ring.of_grant rfl (by decide) (by decide) (by decide) rfl rfl
  exact ⟨⟨_, ring, rfl⟩, rfl, by decide⟩

theorem growth_never_wraps_huge :
    (Ends ((Vec.Op.push (C := Unit) (.outside ())).run () hugeVec) hugeMem fun result later =>
      Vec.Grown hugeVec 5 hugeMem result.1 result.2.2 later) ∧
    (Ends (Vec.copyOver Unit hugeVec ⟨none, 0, 0, ⟨2 ^ 61, 1⟩, some 0⟩) hugeMem fun result later =>
      Vec.Grown hugeVec 0 hugeMem result.1 result.2 later) ∧
    (Ends ((Deque.Op.pushBack (C := Unit) (.outside ())).run () hugeDeque) hugeMem fun result later =>
      Deque.Grown hugeDeque 5 hugeMem result.1 result.2.2 later) ∧
    (Ends (Deque.copyOver Unit ⟨none, 0, 0, 0, ⟨2 ^ 61, 1⟩, some 0⟩ hugeDeque) hugeMem fun result later =>
      Deque.Grown ⟨none, 0, 0, 0, ⟨2 ^ 61, 1⟩, some 0⟩ 4 hugeMem result.1 result.2 later) := by
  have never := growth_never_wraps (C := Unit) ()
  have bareVec : Vec.Holds hugeMem.blocks ⟨none, 0, 0, ⟨2 ^ 61, 1⟩, some 0⟩ ([] : List Unit) :=
    Vec.Holds.of_bare rfl (by decide) rfl rfl rfl
  have bareDeque : Deque.Holds hugeMem.blocks ⟨none, 0, 0, 0, ⟨2 ^ 61, 1⟩, some 0⟩ ([] : List Unit) :=
    Deque.Holds.of_bare rfl (by decide) rfl rfl rfl rfl
  have nothing : forall addr, addr ∈ (none : Option Addr).toList -> addr ∉ (some 1).toList :=
    fun _ impossible => absurd impossible List.not_mem_nil
  refine ⟨never.1 hugeMem hugeVec _ (.push (.outside ())) 5 hugeVec_holds trivial rfl, ?_, ?_, ?_⟩
  · exact never.2.1 hugeMem hugeVec _ _ _ hugeVec_holds bareVec rfl nothing
  · exact never.2.2.1 hugeMem hugeDeque _ (.pushBack (.outside ())) 5 hugeDeque_holds trivial rfl
  · exact never.2.2.2 hugeMem _ hugeDeque _ _ bareDeque hugeDeque_holds rfl
      fun _ _ impossible => absurd impossible List.not_mem_nil
end TerseDsa
