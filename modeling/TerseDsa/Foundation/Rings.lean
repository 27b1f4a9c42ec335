import Mathlib.Data.List.Rotate
import Mathlib.Tactic.Common

namespace TerseDsa
namespace Foundation

/-!
# Rings of slots

A ring is a list of slots and the place where it starts.  Read from there once
around, it shows `slots.rotate head`, and what a ring buffer does is told in
terms of that list: a write to one slot, a run of writes that may straddle the
seam, and the start moving on or back.
-/

variable {A : Type} {slots vals : List A} {size head idx slot count : Nat}

/-- The list with `vals` written over it from `at_` on. -/
def overwriteAt (slots : List A) (at_ : Nat) (vals : List A) : List A :=
  slots.take at_ ++ vals ++ slots.drop (at_ + vals.length)

theorem overwriteAt_nil : overwriteAt slots idx [] = slots := by
  simp [overwriteAt]

@[simp] theorem overwriteAt_length (fits : idx + vals.length ≤ slots.length) :
    (overwriteAt slots idx vals).length = slots.length := by
  simp only [overwriteAt, List.length_append, List.length_take, List.length_drop]
  omega

theorem getElem?_overwriteAt (fits : idx + vals.length ≤ slots.length) (place : Nat) :
    (overwriteAt slots idx vals)[place]? =
      if idx ≤ place ∧ place < idx + vals.length then vals[place - idx]? else slots[place]? := by
  have taken : (slots.take idx).length = idx := by
    rw [List.length_take]
    omega
  unfold overwriteAt
  rw [List.append_assoc, List.getElem?_append, taken]
  by_cases before : place < idx
  · rw [if_pos before, if_neg (by omega), List.getElem?_take_of_lt before]
  · rw [if_neg before, List.getElem?_append]
    by_cases within : place - idx < vals.length
    · rw [if_pos within, if_pos (by omega)]
    · rw [if_neg within, if_neg (by omega), List.getElem?_drop]
      congr 1
      omega

theorem set_overwriteAt_snoc (fits : idx + vals.length < slots.length) (val : A) :
    (overwriteAt slots idx vals).set (idx + vals.length) val = overwriteAt slots idx (vals ++ [val]) := by
  apply List.ext_getElem?
  intro place
  rw [List.getElem?_set, getElem?_overwriteAt (by omega),
    getElem?_overwriteAt (by simp only [List.length_append, List.length_singleton]; omega),
    overwriteAt_length (by omega), List.getElem?_append]
  simp only [List.length_append, List.length_singleton]
  by_cases here : idx + vals.length = place
  · subst here
    rw [if_pos rfl, if_pos fits, if_pos (by omega), if_neg (by omega)]
    simp
  · rw [if_neg here]
    split_ifs <;> first | rfl | omega

theorem set_overwriteAt_cons (fits : idx + 1 + vals.length ≤ slots.length) (val : A) :
    (overwriteAt slots (idx + 1) vals).set idx val = overwriteAt slots idx (val :: vals) := by
  apply List.ext_getElem?
  intro place
  rw [List.getElem?_set, getElem?_overwriteAt fits,
    getElem?_overwriteAt (by rw [List.length_cons]; omega), overwriteAt_length fits, List.length_cons]
  by_cases here : idx = place
  · subst here
    rw [if_pos rfl, if_pos (by omega), if_pos (by omega), Nat.sub_self]
    rfl
  · rw [if_neg here]
    split_ifs
    · rw [List.getElem?_cons, if_neg (by omega)]
      congr 1
    · omega
    · omega
    · rfl

/-- The slot of the elem `idx` past the start, one lap back when that passes the end. -/
def lap (size head idx : Nat) : Nat :=
  if idx < size - head then head + idx else idx - (size - head)

theorem lap_lt (start : head < size) (inside : idx < size) : lap size head idx < size := by
  unfold lap
  split <;> omega

theorem lap_eq_mod (start : head < size) (inside : idx < size) :
    lap size head idx = (idx + head) % size := by
  unfold lap
  split
  · rw [Nat.mod_eq_of_lt (by omega)]
    omega
  · rw [Nat.mod_eq_sub_mod (by omega), Nat.mod_eq_of_lt (by omega)]
    omega

theorem lap_inj (start : head < size) (inside : idx < size) (within : slot < size)
    (same : lap size head idx = lap size head slot) : idx = slot := by
  unfold lap at same
  split at same <;> split at same <;> omega

theorem getElem?_rotate_lap (start : head < slots.length) (inside : idx < slots.length) :
    (slots.rotate head)[idx]? = slots[lap slots.length head idx]? := by
  rw [List.getElem?_rotate inside, lap_eq_mod start inside]

/-- Writing the slot of an elem writes the elem. -/
theorem rotate_set (start : head < slots.length) (inside : idx < slots.length) (val : A) :
    (slots.set (lap slots.length head idx) val).rotate head = (slots.rotate head).set idx val := by
  apply List.ext_getElem?
  intro place
  by_cases within : place < slots.length
  · rw [getElem?_rotate_lap (by simpa using start) (by simpa using within), List.length_set,
      List.getElem?_set, List.getElem?_set, getElem?_rotate_lap start within, List.length_rotate,
      if_pos inside]
    by_cases same : idx = place
    · rw [if_pos same, if_pos (by rw [same]), if_pos (lap_lt start inside)]
    · rw [if_neg same, if_neg fun equal => same (lap_inj start inside within equal)]
  · rw [List.getElem?_eq_none (by simp; omega), List.getElem?_eq_none (by simp; omega)]

/-- How many of `count` slots from `slot` on fit before the end. -/
def runLength (size slot count : Nat) : Nat :=
  if size - slot < count then size - slot else count

theorem runLength_le (size slot count : Nat) : runLength size slot count ≤ count := by
  unfold runLength
  split <;> omega

theorem add_runLength_le (inside : slot ≤ size) (count : Nat) :
    slot + runLength size slot count ≤ size := by
  unfold runLength
  split <;> omega

/-- A run of writes that straddles the seam is a run of writes to the elems. -/
theorem rotate_overwriteAt (start : head < slots.length) (inside : idx < slots.length)
    (fits : idx + vals.length ≤ slots.length) (at_slot : slot = lap slots.length head idx)
    (run : count = runLength slots.length slot vals.length) :
    (overwriteAt (overwriteAt slots slot (vals.take count)) 0 (vals.drop count)).rotate head =
      overwriteAt (slots.rotate head) idx vals := by
  have inSlots : slot < slots.length := at_slot ▸ lap_lt start inside
  have first : slot + (vals.take count).length ≤ slots.length := by
    rw [List.length_take, run, runLength]
    split <;> omega
  have firstLength := overwriteAt_length first
  have second : 0 + (vals.drop count).length ≤
      (overwriteAt slots slot (vals.take count)).length := by
    rw [firstLength, List.length_drop]
    omega
  have length := (overwriteAt_length second).trans firstLength
  apply List.ext_getElem?
  intro place
  by_cases within : place < slots.length
  · rw [getElem?_rotate_lap (by rw [length]; exact start) (by rw [length]; exact within), length,
      getElem?_overwriteAt second, getElem?_overwriteAt first,
      getElem?_overwriteAt (by rw [List.length_rotate]; exact fits),
      getElem?_rotate_lap start within]
    simp only [List.length_take, List.length_drop, List.getElem?_take, List.getElem?_drop]
    subst at_slot
    subst run
    clear first second length firstLength
    unfold runLength lap at *
    split_ifs <;> first | omega | rfl | (congr 1; omega)
  · rw [List.getElem?_eq_none (by rw [List.length_rotate, length]; omega),
      List.getElem?_eq_none (by
        rw [overwriteAt_length (by rw [List.length_rotate]; exact fits), List.length_rotate]
        omega)]

/-- The elems in order are two runs of slots: from the start to the end, and on from the first. -/
theorem take_rotate (start : head ≤ slots.length) (fits : count ≤ slots.length) :
    (slots.rotate head).take count =
      (slots.drop head).take (runLength slots.length head count) ++
        slots.take (count - runLength slots.length head count) := by
  rw [List.rotate_eq_drop_append_take start, List.take_append, List.length_drop, List.take_take]
  unfold runLength
  split
  · have whole : (slots.drop head).length = slots.length - head := List.length_drop
    rw [Nat.min_eq_left (by omega), List.take_of_length_le (by omega : (slots.drop head).length ≤ count),
      List.take_of_length_le (by omega : (slots.drop head).length ≤ slots.length - head)]
  · rw [Nat.sub_self, Nat.sub_eq_zero_of_le (by omega)]
    simp

/-- Moving the start on turns the elems. -/
theorem rotate_fwd (slots : List A) (head count : Nat) :
    slots.rotate ((head + count) % slots.length) = (slots.rotate head).rotate count := by
  rw [List.rotate_mod, List.rotate_rotate]

/-- `(slot + count) mod size`, without a sum past the end. -/
theorem fwd_eq_mod (inside : slot < size) (within : count ≤ size) :
    (if count < size - slot then slot + count else count - (size - slot)) =
      (slot + count) % size := by
  split
  · rw [Nat.mod_eq_of_lt (by omega)]
  · rw [Nat.mod_eq_sub_mod (by omega)]
    by_cases whole : slot + count - size < size
    · rw [Nat.mod_eq_of_lt whole]
      omega
    · omega

/-- `(slot - count) mod size`, as a way round the ring. -/
theorem back_eq_mod (inside : slot < size) (within : count ≤ size) :
    (if slot ≥ count then slot - count else slot + size - count) =
      (slot + (size - count)) % size := by
  split
  · rw [Nat.mod_eq_sub_mod (by omega), Nat.mod_eq_of_lt (by omega)]
    omega
  · rw [Nat.mod_eq_of_lt (by omega)]
    omega

end Foundation
end TerseDsa
