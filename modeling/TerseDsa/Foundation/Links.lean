import Mathlib.Data.List.Basic
import Mathlib.Data.List.Nodup
import Mathlib.Logic.Function.Basic

namespace TerseDsa
namespace Foundation

/-!
# Linked segments

Pointer structures are described by one function, the address a node's link
holds, and by the list of nodes that a walk along it passes.  `Seg nx start
nodes stop` says that following `nx` from `start` passes `nodes` in turn and
arrives at `stop`.  A chain is a segment that arrives at the null link.

A link that is changed is a `Function.update` of `nx`.  The frame rule says
which segments such a change leaves alone, and `Seg.redirect` says what it
does to the segment it is made in.
-/

variable {A : Type}

/-- Following `nx` from `start` passes `nodes` in turn and arrives at `stop`. -/
def Seg (nx : A -> Option A) : Option A -> List A -> Option A -> Prop
  | start, [], stop => start = stop
  | start, node :: rest, stop => start = some node ∧ Seg nx (nx node) rest stop

namespace Seg

variable {nx other : A -> Option A} {start middle stop : Option A} {nodes left right : List A}

@[simp] theorem cons_iff {node : A} :
    Seg nx start (node :: nodes) stop <-> start = some node ∧ Seg nx (nx node) nodes stop :=
  Iff.rfl

/-- A walk splits at every node it passes. -/
theorem append_iff :
    Seg nx start (left ++ right) stop <->
      exists middle, Seg nx start left middle ∧ Seg nx middle right stop := by
  induction left generalizing start with
  | nil =>
      constructor
      · intro walk
        exact ⟨start, rfl, walk⟩
      · rintro ⟨middle, same, walk⟩
        exact same ▸ walk
  | cons node rest ih =>
      simp only [List.cons_append, cons_iff, ih]
      constructor
      · rintro ⟨here, middle, first, second⟩
        exact ⟨middle, ⟨here, first⟩, second⟩
      · rintro ⟨middle, ⟨here, first⟩, second⟩
        exact ⟨here, middle, first, second⟩

theorem append (first : Seg nx start left middle) (second : Seg nx middle right stop) :
    Seg nx start (left ++ right) stop :=
  append_iff.mpr ⟨middle, first, second⟩

/-- The last link of a nonempty walk is what it arrives at. -/
theorem snoc_iff {last : A} :
    Seg nx start (nodes ++ [last]) stop <-> Seg nx start nodes (some last) ∧ nx last = stop := by
  rw [append_iff]
  constructor
  · rintro ⟨middle, walk, here, after⟩
    exact ⟨here ▸ walk, after⟩
  · rintro ⟨walk, after⟩
    exact ⟨some last, walk, rfl, after⟩

/-- Links of nodes the walk does not pass are free to change. -/
theorem congr (walk : Seg nx start nodes stop)
    (agree : forall node, node ∈ nodes -> other node = nx node) :
    Seg other start nodes stop := by
  induction nodes generalizing start with
  | nil => exact walk
  | cons node rest ih =>
      refine ⟨walk.1, ?_⟩
      rw [agree node List.mem_cons_self]
      exact ih walk.2 (fun later member =>
        agree later (List.mem_cons_of_mem node member))

/-- Where a walk starts: at its first node, or where it stops if there is none. -/
theorem start_eq (walk : Seg nx start nodes stop) : start = (nodes.head?.or stop) := by
  cases nodes with
  | nil => exact walk
  | cons node rest => exact walk.1

/-- Two walks along the same links to the null link are the same walk. -/
theorem unique (first : Seg nx start left none) (second : Seg nx start right none) :
    left = right := by
  induction left generalizing start right with
  | nil =>
      cases right with
      | nil => rfl
      | cons node rest =>
          have impossible := second.1
          rw [show start = none from first] at impossible
          cases impossible
  | cons node rest ih =>
      cases right with
      | nil =>
          have impossible := first.1
          rw [show start = none from second] at impossible
          cases impossible
      | cons also others =>
          have same := first.1.symm.trans second.1
          cases same
          rw [ih first.2 second.2]

/-- A walk that arrives at the null link never meets a node twice: from the
second meeting on it would have to go the same way again. -/
theorem nodup (walk : Seg nx start nodes none) : nodes.Nodup := by
  induction nodes generalizing start with
  | nil => exact List.nodup_nil
  | cons node rest ih =>
      refine List.nodup_cons.mpr ⟨?_, ih walk.2⟩
      intro again
      rcases List.append_of_mem again with ⟨before, after, split⟩
      have inner := walk.2
      rw [split] at inner
      rcases append_iff.mp inner with ⟨middle, _, second⟩
      have same := unique walk.2 second.2
      have lengths := congrArg List.length same
      rw [split] at lengths
      simp only [List.length_append, List.length_cons] at lengths
      omega

section Update

variable [DecidableEq A]

theorem update_of_not_mem {node : A} {link : Option A} (walk : Seg nx start nodes stop)
    (outside : node ∉ nodes) : Seg (Function.update nx node link) start nodes stop :=
  walk.congr (fun later member => Function.update_of_ne
    (by rintro rfl; exact outside member) _ _)

/-- Overwriting the last link of a walk redirects the walk. -/
theorem redirect {last : A} {link : Option A} (walk : Seg nx start (nodes ++ [last]) stop)
    (outside : last ∉ nodes) :
    Seg (Function.update nx last link) start (nodes ++ [last]) link := by
  rw [snoc_iff] at walk ⊢
  exact ⟨walk.1.update_of_not_mem outside, Function.update_self _ _ _⟩

end Update

end Seg

end Foundation
end TerseDsa
