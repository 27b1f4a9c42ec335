import TerseDsa.Foundation.Slices

namespace TerseDsa
namespace Foundation

open Run

/-!
# What is asked for

A program that is refused may ask for something else.  `Requests` says what
was asked for in turn, and what came of the last request; two such sequences
follow one another if the first was refused to its end.

A run on a heap is `Quiet` if it asks for no block at all: it may read, write
and give back blocks.
-/

/-- These were asked for in turn.  All were refused, except for the last if there is an answer. -/
inductive Requests {A B S : Type} (ask : A -> Run S (Option B)) : List A -> S -> Option B -> S -> Prop where
  | nothing (s : S) : Requests ask [] s none s
  | granted {a : A} {b : B} {s later : S} (answered : ask a s = some (some b, later)) :
      Requests ask [a] s (some b) later
  | refused {a : A} {more : List A} {s mid later : S} {answer : Option B} (denied : ask a s = some (none, mid))
      (others : Requests ask more mid answer later) : Requests ask (a :: more) s answer later

namespace Requests

variable {A B S : Type} {ask : A -> Run S (Option B)} {made more : List A} {s mid later : S} {answer : Option B}

/-- What was refused to the end, and what was asked for then. -/
theorem append (first : Requests ask made s none mid) (second : Requests ask more mid answer later) :
    Requests ask (made ++ more) s answer later := by
  induction made generalizing s with
  | nil =>
      cases first
      exact second
  | cons a rest ih =>
      cases first with
      | refused denied others => exact refused denied (ih others)

end Requests

namespace Heap

variable {Tag Cell A B : Type}

/-- The run uses up no answer of the allocator. -/
def Quiet (run : Run (Heap Tag Cell) A) : Prop := forall asked, Run.Keeps (fun heap => heap.asked = asked) run

namespace Quiet

variable {run : Run (Heap Tag Cell) A} {heap : Heap Tag Cell}

/-- After a quiet run as much was asked for as before. -/
theorem allows (quiet : Quiet run) {post : A -> Heap Tag Cell -> Prop}
    (then_ : forall a later, later.asked = heap.asked -> post a later) : Allows run heap post :=
  fun a later ran => then_ a later (quiet heap.asked heap rfl a later ran)

theorem of_pure (a : A) : Quiet (pure a : Run (Heap Tag Cell) A) := fun _ => Run.Keeps.of_pure a

theorem of_failure : Quiet (failure : Run (Heap Tag Cell) A) := fun _ => Run.Keeps.of_failure

theorem of_require (cond : Prop) [Decidable cond] : Quiet (require cond : Run (Heap Tag Cell) Unit) :=
  fun _ => Run.Keeps.of_require cond

theorem of_demand (found : Option A) : Quiet (demand found : Run (Heap Tag Cell) A) :=
  fun _ => Run.Keeps.of_demand found

theorem bind (first : Quiet run) {next : A -> Run (Heap Tag Cell) B} (second : forall a, Quiet (next a)) :
    Quiet (run >>= next) :=
  fun asked => (first asked).bind fun a => second a asked

theorem ite {cond : Prop} [Decidable cond] {other : Run (Heap Tag Cell) A} (first : Quiet run)
    (second : Quiet other) : Quiet (if cond then run else other) :=
  fun asked => (first asked).ite (second asked)

theorem countUp {body : Nat -> B -> Run (Heap Tag Cell) B} (step : forall i b, Quiet (body i b)) (todo idx : Nat)
    (b : B) : Quiet (countUp body todo idx b) :=
  fun asked => Run.Keeps.countUp (fun i c => step i c asked) todo idx b

/-! ## The operations on one block -/

theorem read (addr : Addr) : Quiet (Heap.read addr : Run (Heap Tag Cell) Cell) := by
  intro asked heap same
  simp only [Heap.read, allows_bind, Run.allows_get]
  exact allows_demand fun _ _ => (allows_pure _ _ _).mpr same

theorem write (addr : Addr) (cell : Cell) : Quiet (Heap.write addr cell : Run (Heap Tag Cell) Unit) := by
  intro asked heap same
  simp only [Heap.write, allows_bind, Run.allows_get]
  exact allows_demand fun _ _ => fun _ _ ran => by cases ran; exact same

theorem release [DecidableEq Tag] (addr : Addr) (tag : Tag) :
    Quiet (Heap.release addr tag : Run (Heap Tag Cell) Unit) := by
  intro asked heap same
  simp only [Heap.release, allows_bind, Run.allows_get]
  refine allows_demand fun block _ => (allows_require _ _ _).mpr fun _ => ?_
  intro _ _ ran
  cases ran
  exact same

end Quiet

end Heap

namespace Slice

variable {Tag Cell : Type} (slice : Slice) (idx : Nat)

theorem quiet_read : Heap.Quiet (read slice idx : Run (Heap Tag (List Cell)) Cell) :=
  (Heap.Quiet.of_demand _).bind fun _ => (Heap.Quiet.read _).bind fun _ => Heap.Quiet.of_demand _

theorem quiet_write (cell : Cell) : Heap.Quiet (write slice idx cell : Run (Heap Tag (List Cell)) Unit) :=
  (Heap.Quiet.of_demand _).bind fun _ => (Heap.Quiet.read _).bind fun _ =>
    (Heap.Quiet.of_require _).bind fun _ => Heap.Quiet.write _ _

theorem quiet_readRun (count : Nat) : Heap.Quiet (readRun slice idx count : Run (Heap Tag (List Cell)) (List Cell)) :=
  (Heap.Quiet.of_demand _).bind fun _ => (Heap.Quiet.read _).bind fun _ =>
    (Heap.Quiet.of_require _).bind fun _ => Heap.Quiet.of_pure _

theorem quiet_writeRun (cells : List Cell) :
    Heap.Quiet (writeRun slice idx cells : Run (Heap Tag (List Cell)) Unit) :=
  (Heap.Quiet.of_demand _).bind fun _ => (Heap.Quiet.read _).bind fun _ =>
    (Heap.Quiet.of_require _).bind fun _ => Heap.Quiet.write _ _

end Slice

end Foundation
end TerseDsa
