import Mathlib.Data.List.Basic
import Mathlib.Tactic.Common

namespace TerseDsa
namespace Foundation

/-!
# Running folds and steps

The running fold of a row combines each elem with what came out before it, the
steps of a row combine it with the elem before it.  Either undoes the other if
the second operation undoes the first.
-/

variable {A : Type} {f g : A -> A -> A}

/-- The first elem, and then what came out last combined with the next one. -/
def running (f : A -> A -> A) : List A -> List A
  | [] => []
  | first :: rest => rest.scanl f first

/-- The first elem, and then each one combined with the one before it. -/
def steps (f : A -> A -> A) : List A -> List A
  | [] => []
  | first :: rest => first :: List.zipWith f rest (first :: rest)

section Indices

variable (f : A -> A -> A) (elems : List A) (i : Nat)

theorem length_running : (running f elems).length = elems.length := by
  cases elems with
  | nil => rfl
  | cons first rest => exact List.length_scanl

theorem length_steps : (steps f elems).length = elems.length := by
  cases elems with
  | nil => rfl
  | cons first rest =>
      simp only [steps, List.length_cons, List.length_zipWith]
      omega

theorem running_zero : (running f elems)[0]? = elems[0]? := by
  cases elems with
  | nil => rfl
  | cons first rest => exact List.getElem?_scanl_zero

theorem running_succ :
    (running f elems)[i + 1]? = ((running f elems)[i]?).bind fun before => (elems[i + 1]?).map fun x => f before x := by
  cases elems with
  | nil => rfl
  | cons first rest => exact List.getElem?_succ_scanl

theorem steps_zero : (steps f elems)[0]? = elems[0]? := by
  cases elems with
  | nil => rfl
  | cons first rest => rfl

theorem steps_succ : (steps f elems)[i + 1]? = (elems[i]?).bind fun before => (elems[i + 1]?).map fun x => f x before := by
  cases elems with
  | nil => rfl
  | cons first rest =>
      rw [steps, List.getElem?_cons_succ, List.getElem?_cons_succ, List.getElem?_zipWith]
      cases rest[i]? with
      | none => cases (first :: rest)[i]? <;> rfl
      | some x => cases (first :: rest)[i]? <;> rfl

end Indices

/-- An elem that came out, from the one before it. -/
theorem running_at {elems : List A} {i : Nat} {before x : A} (here : (running f elems)[i]? = some before)
    (next : elems[i + 1]? = some x) : (running f elems)[i + 1]? = some (f before x) := by
  rw [running_succ, here, next]
  rfl

theorem steps_at {elems : List A} {i : Nat} {before x : A} (here : elems[i]? = some before)
    (next : elems[i + 1]? = some x) : (steps f elems)[i + 1]? = some (f x before) := by
  rw [steps_succ, here, next]
  rfl

/-- The steps of the running fold are the row. -/
theorem steps_running (undo : forall x y, g (f x y) x = y) (elems : List A) : steps g (running f elems) = elems := by
  apply List.ext_getElem?
  intro i
  cases i with
  | zero => rw [steps_zero, running_zero]
  | succ i =>
      rw [steps_succ, running_succ]
      cases here : (running f elems)[i]? with
      | none =>
          have behind := List.getElem?_eq_none_iff.mp here
          rw [length_running] at behind
          rw [List.getElem?_eq_none (by omega)]
          rfl
      | some before =>
          cases elems[i + 1]? with
          | none => rfl
          | some x => exact congrArg some (undo before x)

/-- The running fold of the steps is the row. -/
theorem running_steps (undo : forall x y, f y (g x y) = x) (elems : List A) : running f (steps g elems) = elems := by
  apply List.ext_getElem?
  intro i
  induction i with
  | zero => rw [running_zero, steps_zero]
  | succ i ih =>
      rw [running_succ, steps_succ, ih]
      cases here : elems[i]? with
      | none =>
          have behind := List.getElem?_eq_none_iff.mp here
          rw [List.getElem?_eq_none (by omega)]
          rfl
      | some before =>
          cases elems[i + 1]? with
          | none => rfl
          | some x => exact congrArg some (undo x before)

end Foundation
end TerseDsa
