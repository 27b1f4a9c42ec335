import TerseDsa.Foundation.Scanning

namespace TerseDsa
namespace Foundation

/-!
# What a run can yield

A fact about the results of a run from any state at all, and the equations
between runs that such facts decide: what follows a run need only be the same
for the results it has, and the body of a loop only for the variables that the
loop comes to.
-/

namespace Run

variable {S α β γ : Type} {run : Run S α} {fact other : α -> Prop}

/-- Wherever the run starts, its result has the fact. -/
def Yields (run : Run S α) (fact : α -> Prop) : Prop := forall s, Allows run s fun a _ => fact a

namespace Yields

theorem mono (yields : Yields run fact) (widen : forall a, fact a -> other a) : Yields run other :=
  fun s => (yields s).mono fun a _ => widen a

theorem pure {a : α} (holds : fact a) : Yields (pure a : Run S α) fact := fun s => (allows_pure a s _).mpr holds

theorem bind {wanted : β -> Prop} {next : α -> Run S β} (first : Yields run fact)
    (second : forall a, fact a -> Yields (next a) wanted) : Yields (run >>= next) wanted := by
  intro s
  rw [allows_bind]
  exact (first s).mono fun a t holds => second a holds t

/-- What follows has the fact, whatever comes before. -/
theorem after {wanted : β -> Prop} {next : α -> Run S β} (second : forall a, Yields (next a) wanted) :
    Yields (run >>= next) wanted := by
  have anything : Yields run fun _ => True := fun _ _ _ _ => trivial
  exact anything.bind fun a _ => second a

theorem require (cond : Prop) [Decidable cond] : Yields (require (S := S) cond) fun _ => cond :=
  fun s => (allows_require cond s _).mpr id

/-- What follows a check may use it. -/
theorem checked {cond : Prop} [Decidable cond] {next : Unit -> Run S α} (second : cond -> Yields (next ()) fact) :
    Yields (Run.require cond >>= next) fact :=
  (require cond).bind fun _ => second

theorem ite {cond : Prop} [Decidable cond] {first second : Run S α} (yes : cond -> Yields first fact)
    (no : ¬ cond -> Yields second fact) : Yields (if cond then first else second) fact := by
  split
  · exact yes ‹_›
  · exact no ‹_›

/-- The rule for loops: a round leaves with the fact or keeps what is known of the variables. -/
theorem loop {body : β -> Run S (Round β γ)} {wanted : γ -> Prop} (inv : β -> Prop)
    (step : forall b, inv b -> Yields (body b) (Round.Meets inv wanted)) {bound : Nat} {b : β} (holds : inv b) :
    Yields (Run.loop body bound b) wanted := by
  intro s
  refine allows_loop (fun b _ => inv b) (fun b s kept => (step b kept s).mono fun round t meets => ?_) holds
  cases round with
  | again next => exact meets
  | leave result => exact meets

end Yields

theorem Round.Meets.leave {again : β -> Prop} {ended : γ -> Prop} {round : Round β γ}
    (meets : round.Meets again ended) : round.Meets again fun _ => True := by
  cases round with
  | again next => exact meets
  | leave result => trivial

/-! ## Equations between runs -/

theorem bind_congr_yields {next next' : α -> Run S β} (yields : Yields run fact)
    (same : forall a, fact a -> next a = next' a) : run >>= next = run >>= next' := by
  funext s
  change (run s).bind (fun pair => next pair.1 pair.2) = (run s).bind fun pair => next' pair.1 pair.2
  cases result : run s with
  | none => rfl
  | some pair => exact congrFun (same pair.1 (yields s pair.1 pair.2 result)) pair.2

theorem bind_congr {next next' : α -> Run S β} (same : forall a, next a = next' a) : run >>= next = run >>= next' :=
  congrArg (run >>= ·) (funext same)

/-- What follows a check need only be the same where it passes. -/
theorem bind_congr_require {cond : Prop} [Decidable cond] {next next' : Unit -> Run S α}
    (same : cond -> next () = next' ()) : require cond >>= next = require cond >>= next' :=
  bind_congr_yields (Yields.require cond) fun _ => same

theorem ite_congr_run {cond : Prop} [Decidable cond] {first second first' second' : Run S α}
    (yes : cond -> first = first') (no : ¬ cond -> second = second') :
    (if cond then first else second) = if cond then first' else second' := by
  split
  · exact yes ‹_›
  · exact no ‹_›

/-- Loops are the same where their bodies are, on the variables they come to. -/
theorem loop_congr {body body' : β -> Run S (Round β γ)} (inv : β -> Prop)
    (same : forall b, inv b -> body b = body' b)
    (kept : forall b, inv b -> Yields (body' b) (Round.Meets inv fun _ => True)) {bound : Nat} {b : β}
    (holds : inv b) : loop body bound b = loop body' bound b := by
  induction bound generalizing b with
  | zero => rfl
  | succ bound ih =>
      rw [loop, loop, same b holds]
      refine bind_congr_yields (kept b holds) fun round meets => ?_
      cases round with
      | again next => exact ih meets
      | leave result => rfl

/-- Scans are the same where their bodies are, on the indices they come to. -/
theorem scanUp_congr {body body' : Nat -> β -> Run S (Round β γ)} {todo idx stop : Nat} (len : idx + todo = stop)
    (same : forall i b, idx ≤ i -> i < stop -> body i b = body' i b) {b : β} :
    scanUp body todo idx b = scanUp body' todo idx b := by
  induction todo generalizing idx b with
  | zero => rfl
  | succ todo ih =>
      rw [scanUp, scanUp, same idx b (Nat.le_refl idx) (by omega)]
      refine bind_congr fun round => ?_
      cases round with
      | again next => exact ih (by omega) fun i c low => same i c (Nat.le_of_succ_le low)
      | leave result => rfl

theorem scanDown_congr {body body' : Nat -> β -> Run S (Round β γ)} {count : Nat}
    (same : forall i b, i < count -> body i b = body' i b) {b : β} :
    scanDown body count b = scanDown body' count b := by
  induction count generalizing b with
  | zero => rfl
  | succ count ih =>
      rw [scanDown, scanDown, same count b (Nat.lt_succ_self count)]
      refine bind_congr fun round => ?_
      cases round with
      | again next => exact ih fun i c below => same i c (Nat.lt_succ_of_lt below)
      | leave result => rfl

end Run
end Foundation
end TerseDsa
