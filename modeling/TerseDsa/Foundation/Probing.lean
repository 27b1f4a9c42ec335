import Mathlib.Data.Nat.ModEq
import Mathlib.Logic.Function.Basic
import Mathlib.Tactic.Common

namespace TerseDsa
namespace Foundation

open Function (update update_self update_of_ne)

/-!
# Linear probing

Slots in a ring, each empty or with a key.  A key belongs into its home slot or,
if that is taken, into the first empty one after it, so that every key is reached
from its home over taken slots.  A key that is taken out leaves a hole, which is
closed by moving later keys back: `Holed` is what holds while that goes on.
-/

variable {κ : Type} {size : Nat} {at_ : Nat -> Option κ} {home : κ -> Nat}
  {key other : κ} {hole steps count limit place : Nat}

/-- From the home of a key, `steps` further on, over taken slots only. -/
structure ReachedIn (size : Nat) (at_ : Nat -> Option κ) (start place steps : Nat) : Prop where
  short : steps < size
  place : (start + steps) % size = place
  taken : forall idx, idx < steps -> at_ ((start + idx) % size) ≠ none

/-- Every key is reached from its home. -/
def Probed (size : Nat) (at_ : Nat -> Option κ) (home : κ -> Nat) : Prop :=
  forall place key, place < size -> at_ place = some key ->
    exists steps, ReachedIn size at_ (home key) place steps

/-! ## Places in a ring -/

/-- Less than once around, different steps lead to different places. -/
theorem steps_inj {start first second : Nat} (short : first < size) (also : second < size)
    (same : (start + first) % size = (start + second) % size) : first = second := by
  have cancelled : first % size = second % size := Nat.ModEq.add_left_cancel' start same
  rwa [Nat.mod_eq_of_lt short, Nat.mod_eq_of_lt also] at cancelled

/-- Further steps from a place that was reached. -/
theorem steps_add {start first more : Nat} (at_hole : (start + first) % size = hole) :
    (start + (first + more)) % size = (hole + more) % size := by
  rw [← at_hole, ← Nat.add_assoc, Nat.mod_add_mod]

/-! ## Looking up and putting in -/

/-- Behind an empty slot there is no key that came past it. -/
theorem Probed.absent (probed : Probed size at_ home) {start : Nat} (start_eq : home key = start)
    (reached : ReachedIn size at_ start place steps) (empty : at_ place = none)
    (others : forall idx, idx < steps -> at_ ((start + idx) % size) ≠ some key) :
    forall slot, slot < size -> at_ slot ≠ some key := by
  intro slot inside here
  rcases probed slot key inside here with ⟨further, path⟩
  rw [start_eq] at path
  rcases Nat.lt_trichotomy further steps with before | same | after
  · exact others further before (path.place ▸ here)
  · subst same
    rw [← path.place, reached.place, empty] at here
    cases here
  · exact path.taken steps after (reached.place ▸ empty)

/-- A key put into the first empty slot from its home on is reached, and so are the others. -/
theorem Probed.insert (probed : Probed size at_ home)
    (reached : ReachedIn size at_ (home key) place steps) :
    Probed size (update at_ place (some key)) home := by
  have more : forall slot, at_ slot ≠ none -> update at_ place (some key) slot ≠ none := by
    intro slot taken
    by_cases here : slot = place
    · rw [here, update_self]
      exact Option.some_ne_none key
    · rw [update_of_ne here]
      exact taken
  intro slot found inside here
  by_cases there : slot = place
  · subst there
    rw [update_self] at here
    cases here
    exact ⟨steps, reached.short, reached.place, fun idx below => more _ (reached.taken idx below)⟩
  · rw [update_of_ne there] at here
    rcases probed slot found inside here with ⟨further, path⟩
    exact ⟨further, path.short, path.place, fun idx below => more _ (path.taken idx below)⟩

/-! ## Closing a hole -/

/-- The key of a slot is reached but for the hole, and if it was reached over the
hole, then it lies at least `count` slots behind it. -/
structure ReachedPast (size : Nat) (at_ : Nat -> Option κ) (hole count start place steps : Nat) :
    Prop where
  short : steps < size
  place : (start + steps) % size = place
  taken : forall idx, idx < steps -> at_ ((start + idx) % size) ≠ none ∨
    (start + idx) % size = hole ∧ count ≤ steps - idx

/-- There is a hole, the slots behind it are taken, and those before the `count`th
have been looked at; one that is empty comes `limit` slots behind the hole. -/
structure Holed (size : Nat) (at_ : Nat -> Option κ) (home : κ -> Nat) (hole count limit : Nat) :
    Prop where
  inside : hole < size
  some_ : 0 < count
  short : limit < size
  bound : count ≤ limit
  hole_empty : at_ hole = none
  limit_empty : at_ ((hole + limit) % size) = none
  behind : forall idx, 0 < idx -> idx < count -> at_ ((hole + idx) % size) ≠ none
  past : forall place key, place < size -> at_ place = some key ->
    exists steps, ReachedPast size at_ hole count (home key) place steps

theorem Probed.holed (probed : Probed size at_ home) (inside : hole < size) (some_ : 0 < limit)
    (short : limit < size) (empty : at_ ((hole + limit) % size) = none) :
    Holed size (update at_ hole none) home hole 1 limit := by
  refine ⟨inside, Nat.one_pos, short, some_, update_self .., ?_, ?_, ?_⟩
  · by_cases same : (hole + limit) % size = hole
    · rw [same, update_self]
    · rw [update_of_ne same]
      exact empty
  · intro idx low high
    omega
  · intro place key within here
    by_cases same : place = hole
    · rw [same, update_self] at here
      cases here
    · rw [update_of_ne same] at here
      rcases probed place key within here with ⟨steps, path⟩
      refine ⟨steps, path.short, path.place, ?_⟩
      intro idx below
      by_cases onHole : (home key + idx) % size = hole
      · exact Or.inr ⟨onHole, by omega⟩
      · rw [update_of_ne onHole]
        exact Or.inl (path.taken idx below)

namespace Holed

variable (holed : Holed size at_ home hole count limit)

include holed

theorem next_short : count < size := Nat.lt_of_le_of_lt holed.bound holed.short

theorem next_ne_hole : (hole + count) % size ≠ hole := by
  intro same
  have start : (hole + count) % size = (hole + 0) % size := by
    rw [same, Nat.add_zero, Nat.mod_eq_of_lt holed.inside]
  have none_ := steps_inj holed.next_short (Nat.lt_of_le_of_lt (Nat.zero_le _) holed.inside) start
  have some_ := holed.some_
  omega

/-- The run of taken slots ends: no key was reached over the hole. -/
theorem finish (empty : at_ ((hole + count) % size) = none) : Probed size at_ home := by
  intro place key within here
  rcases holed.past place key within here with ⟨steps, path⟩
  refine ⟨steps, path.short, path.place, ?_⟩
  intro idx below
  rcases path.taken idx below with taken | ⟨onHole, far⟩
  · exact taken
  · -- the path goes on from the hole to the empty slot
    have next : (home key + (idx + count)) % size = (hole + count) % size := steps_add onHole
    rcases Nat.lt_or_ge (idx + count) steps with further | last
    · rcases path.taken (idx + count) further with taken | ⟨again, _⟩
      · rw [next] at taken
        exact absurd empty taken
      · rw [next] at again
        exact absurd again holed.next_ne_hole
    · have same : idx + count = steps := by omega
      rw [same, path.place] at next
      rw [← next, here] at empty
      cases empty

/-- The next slot is taken, so the empty one is further away. -/
theorem count_lt (here : at_ ((hole + count) % size) = some key) : count < limit := by
  apply Nat.lt_of_le_of_ne holed.bound
  intro same
  have empty := holed.limit_empty
  rw [← same, here] at empty
  cases empty

/-- The next key's home lies behind the hole, so that the key stays. -/
theorem skip (here : at_ ((hole + count) % size) = some key)
    (reached : ReachedPast size at_ hole count (home key) ((hole + count) % size) steps)
    (near : steps < count) : Holed size at_ home hole (count + 1) limit := by
  refine ⟨holed.inside, Nat.succ_pos _, holed.short, holed.count_lt here, holed.hole_empty,
    holed.limit_empty, ?_, ?_⟩
  · intro idx low high
    rcases Nat.lt_or_eq_of_le (Nat.le_of_lt_succ high) with before | last
    · exact holed.behind idx low before
    · rw [last, here]
      exact Option.some_ne_none key
  · intro place found within there
    rcases holed.past place found within there with ⟨further, path⟩
    refine ⟨further, path.short, path.place, ?_⟩
    intro idx below
    rcases path.taken idx below with taken | ⟨onHole, far⟩
    · exact Or.inl taken
    · refine Or.inr ⟨onHole, ?_⟩
      apply Nat.lt_of_le_of_ne far
      intro exactly
      -- then the key is the one that was just looked at
      have next : (home found + (idx + count)) % size = (hole + count) % size := steps_add onHole
      have whole : idx + count = further := by omega
      rw [whole] at next
      rw [← path.place, next, here] at there
      cases there
      have same := steps_inj reached.short path.short (reached.place.trans next.symm)
      omega

/-- The next key's home lies at the hole or before it: the key moves into the
hole, and where it was is the hole from now on. -/
theorem move (here : at_ ((hole + count) % size) = some key)
    (reached : ReachedPast size at_ hole count (home key) ((hole + count) % size) steps)
    (far : count ≤ steps) :
    Holed size (update (update at_ hole (some key)) ((hole + count) % size) none) home
      ((hole + count) % size) 1 (limit - count) := by
  have size_pos : 0 < size := Nat.lt_of_le_of_lt (Nat.zero_le _) holed.inside
  have different := holed.next_ne_hole
  have below := holed.count_lt here
  have short := holed.short
  have some_ := holed.some_
  -- a slot that was taken is still taken, but for the new hole
  have more : forall slot, slot ≠ (hole + count) % size -> at_ slot ≠ none ∨ slot = hole ->
      update (update at_ hole (some key)) ((hole + count) % size) none slot ≠ none := by
    intro slot elsewhere taken
    rw [update_of_ne elsewhere]
    by_cases same : slot = hole
    · rw [same, update_self]
      exact Option.some_ne_none key
    · rw [update_of_ne same]
      exact taken.resolve_right same
  refine ⟨Nat.mod_lt _ size_pos, Nat.one_pos, by omega, by omega, update_self .., ?_, ?_, ?_⟩
  · have there : ((hole + count) % size + (limit - count)) % size = (hole + limit) % size := by
      rw [Nat.mod_add_mod, Nat.add_assoc, Nat.add_sub_cancel' (Nat.le_of_lt below)]
    have notHole : (hole + limit) % size ≠ hole := by
      intro same
      have start : (hole + limit) % size = (hole + 0) % size := by
        rw [same, Nat.add_zero, Nat.mod_eq_of_lt holed.inside]
      have none_ := steps_inj short size_pos start
      omega
    rw [there]
    by_cases same : (hole + limit) % size = (hole + count) % size
    · rw [same, update_self]
    · rw [update_of_ne same, update_of_ne notHole]
      exact holed.limit_empty
  · intro idx low high
    omega
  · intro place found within there
    by_cases isNext : place = (hole + count) % size
    · rw [isNext, update_self] at there
      cases there
    rw [update_of_ne isNext] at there
    by_cases isHole : place = hole
    · subst isHole
      rw [update_self] at there
      cases there
      have back : (home key + (steps - count)) % size = place := by
        have cancelled : (home key + (steps - count) + count) % size = (place + count) % size := by
          rw [Nat.add_assoc, Nat.sub_add_cancel far]
          exact reached.place
        have modEq : (home key + (steps - count)) % size = place % size :=
          Nat.ModEq.add_right_cancel' count cancelled
        rwa [Nat.mod_eq_of_lt within] at modEq
      have shorter := reached.short
      refine ⟨steps - count, by omega, back, ?_⟩
      intro idx before
      left
      have notHole : (home key + idx) % size ≠ place := by
        intro same
        have equal := steps_inj (by omega) (by omega) (same.trans back.symm)
        omega
      apply more
      · intro same
        have equal := steps_inj (by omega) reached.short (same.trans reached.place.symm)
        omega
      · rcases reached.taken idx (by omega) with taken | ⟨onHole, _⟩
        · exact Or.inl taken
        · exact absurd onHole notHole
    · rw [update_of_ne isHole] at there
      rcases holed.past place found within there with ⟨further, path⟩
      refine ⟨further, path.short, path.place, ?_⟩
      intro idx before
      by_cases onNext : (home found + idx) % size = (hole + count) % size
      · exact Or.inr ⟨onNext, by omega⟩
      · left
        apply more _ onNext
        rcases path.taken idx before with taken | ⟨onHole, _⟩
        · exact Or.inl taken
        · exact Or.inr onHole

end Holed
end Foundation
end TerseDsa
