import TerseDsa.Foundation.Links

namespace TerseDsa
namespace Foundation

/-!
# Chains linked both ways

Two link functions, one for either direction, and the two ends.  `Linked` says
that the walks along them pass the same nodes in opposite orders.  Read
backwards it says the same of the reversed nodes, so that every fact about one
direction is a fact about the other.

Editing such a chain is bending links: the link of the node at a place, or the
end if there is no node there, is pointed elsewhere.
-/

variable {A : Type} {next prev other : A -> Option A} {start stop target head tail : Option A}
  {nodes left right chain : List A} {node first last : A}

theorem not_mem_of_getLast? (apart : left.Disjoint right) (at_ : left.getLast? = some node) :
    node ∉ right :=
  apart (List.mem_of_getLast? at_)

/-! ## Bending one link -/

section Bend

variable [DecidableEq A]

/-- The links after the one of the node at `place`, if there is one, was pointed elsewhere. -/
def bend (next : A -> Option A) (place target : Option A) : A -> Option A :=
  match place with
  | none => next
  | some node => Function.update next node target

/-- The end of a chain after the link at `place` was pointed elsewhere: without a
node there it is the end itself. -/
def endAfter (start place target : Option A) : Option A :=
  match place with
  | none => target
  | some _ => start

theorem bend_of_ne {place : Option A} (different : place ≠ some node) :
    bend next place target node = next node := by
  cases place with
  | none => rfl
  | some at_ => exact Function.update_of_ne (fun same => different (congrArg some same.symm)) _ _

/-- A walk whose last link is bent arrives where that now points. -/
theorem Seg.bent (walk : Seg next start nodes stop) (distinct : nodes.Nodup) :
    Seg (bend next nodes.getLast? target) (endAfter start nodes.getLast? target) nodes target := by
  rcases List.eq_nil_or_concat nodes with rfl | ⟨before, last, rfl⟩
  · rfl
  · rw [List.concat_eq_append] at walk distinct ⊢
    rw [List.getLast?_concat]
    apply walk.redirect
    intro again
    exact (List.nodup_append.mp distinct).2.2 last again last (List.mem_singleton_self last) rfl

theorem Seg.bend_outside {place : Option A} (walk : Seg next start nodes stop)
    (outside : forall node, place = some node -> node ∉ nodes) :
    Seg (bend next place target) start nodes stop := by
  cases place with
  | none => exact walk
  | some node => exact walk.update_of_not_mem (outside node rfl)

theorem Seg.spliced (walk : Seg next start (left ++ right) none)
    (inner : Seg next (some first) chain stop) (end_ : chain.getLast? = some last)
    (distinct : (left ++ chain ++ right).Nodup) :
    Seg (bend (Function.update next last right.head?) left.getLast? (some first))
      (endAfter start left.getLast? (some first)) (left ++ chain ++ right) none := by
  rcases List.nodup_append'.mp distinct with ⟨frontDistinct, rightDistinct, apart⟩
  rcases List.nodup_append'.mp frontDistinct with ⟨leftDistinct, chainDistinct, inFront⟩
  rcases Seg.append_iff.mp walk with ⟨middle, before, behind⟩
  have joint : middle = right.head? := by
    rw [behind.start_eq, Option.or_none]
  subst joint
  have lastIn : last ∈ chain := List.mem_of_getLast? end_
  have leftPart : Seg (bend (Function.update next last right.head?) left.getLast? (some first))
      (endAfter start left.getLast? (some first)) left (some first) := by
    apply Seg.bent (before.update_of_not_mem _) leftDistinct
    exact fun inLeft => inFront inLeft lastIn
  have chainPart : Seg (bend (Function.update next last right.head?) left.getLast? (some first))
      (some first) chain right.head? := by
    apply Seg.bend_outside
    · rcases List.getLast?_eq_some_iff.mp end_ with ⟨body, rfl⟩
      apply inner.redirect
      intro again
      exact (List.nodup_append'.mp chainDistinct).2.2 again (List.mem_singleton_self last)
    · exact fun node at_ => not_mem_of_getLast? inFront at_
  have rightPart : Seg (bend (Function.update next last right.head?) left.getLast? (some first))
      right.head? right none := by
    apply Seg.bend_outside
    · apply behind.update_of_not_mem
      exact fun inRight => apart (List.mem_append_right _ lastIn) inRight
    · intro node at_ inRight
      exact apart (List.mem_append_left _ (List.mem_of_getLast? at_)) inRight
  exact (leftPart.append chainPart).append rightPart

theorem Seg.skipped (walk : Seg next start (left ++ node :: right) none)
    (distinct : (left ++ node :: right).Nodup) :
    Seg (bend next left.getLast? (next node)) (endAfter start left.getLast? (next node))
      (left ++ right) none := by
  rcases List.nodup_append'.mp distinct with ⟨leftDistinct, _, apart⟩
  rcases Seg.append_iff.mp walk with ⟨middle, before, _, behind⟩
  apply (before.bent leftDistinct).append
  apply behind.bend_outside
  exact fun other at_ inRight => apart (List.mem_of_getLast? at_) (List.mem_cons_of_mem node inRight)

end Bend

/-! ## Both directions -/

/-- Both walks pass the nodes, in opposite orders, and arrive at the null link. -/
structure Linked (next prev : A -> Option A) (head tail : Option A) (nodes : List A) : Prop where
  fwd : Seg next head nodes none
  bwd : Seg prev tail nodes.reverse none

namespace Linked

theorem nil : Linked next prev none none ([] : List A) := ⟨rfl, rfl⟩

/-- The chain, walked from its other end. -/
theorem flip (linked : Linked next prev head tail nodes) :
    Linked prev next tail head nodes.reverse :=
  ⟨linked.bwd, by rw [List.reverse_reverse]; exact linked.fwd⟩

theorem nodup (linked : Linked next prev head tail nodes) : nodes.Nodup := linked.fwd.nodup

theorem head_eq (linked : Linked next prev head tail nodes) : head = nodes.head? := by
  rw [linked.fwd.start_eq, Option.or_none]

theorem tail_eq (linked : Linked next prev head tail nodes) : tail = nodes.getLast? := by
  rw [linked.flip.head_eq, List.head?_reverse]

theorem congr {other also : A -> Option A} (linked : Linked next prev head tail nodes)
    (agree : forall node, node ∈ nodes -> other node = next node ∧ also node = prev node) :
    Linked other also head tail nodes :=
  ⟨linked.fwd.congr fun node inside => (agree node inside).1,
    linked.bwd.congr fun node inside => (agree node (List.mem_reverse.mp inside)).2⟩

theorem next_eq (linked : Linked next prev head tail (left ++ node :: right)) :
    next node = right.head? := by
  rcases Seg.append_iff.mp linked.fwd with ⟨_, _, _, behind⟩
  rw [behind.start_eq, Option.or_none]

theorem prev_eq (linked : Linked next prev head tail (left ++ node :: right)) :
    prev node = left.getLast? := by
  have mirror : (left ++ node :: right).reverse = right.reverse ++ node :: left.reverse := by
    rw [List.reverse_append, List.reverse_cons, List.append_assoc]
    rfl
  have back := linked.flip
  rw [mirror] at back
  rw [back.next_eq, List.head?_reverse]

theorem of_prev (linked : Linked next prev head tail nodes) (inside : node ∈ nodes)
    (back : prev node = some first) : first ∈ nodes ∧ next first = some node := by
  rcases List.append_of_mem inside with ⟨left, right, rfl⟩
  rw [linked.prev_eq] at back
  rcases List.getLast?_eq_some_iff.mp back with ⟨before, rfl⟩
  rw [List.append_assoc] at linked ⊢
  exact ⟨List.mem_append_right _ List.mem_cons_self, linked.next_eq⟩

/-- The node after another has it before. -/
theorem of_next (linked : Linked next prev head tail nodes) (inside : node ∈ nodes)
    (fore : next node = some last) : last ∈ nodes ∧ prev last = some node := by
  have mirror := linked.flip.of_prev (List.mem_reverse.mpr inside) fore
  exact ⟨List.mem_reverse.mp mirror.1, mirror.2⟩

variable [DecidableEq A]

theorem insert {away : Option A} (linked : Linked next prev head tail (left ++ right))
    (fwd : Seg next (some first) chain stop) (bwd : Seg prev (some last) chain.reverse away)
    (some_ : chain ≠ []) (distinct : (left ++ chain ++ right).Nodup) :
    Linked (bend (Function.update next last right.head?) left.getLast? (some first))
      (bend (Function.update prev first left.getLast?) right.head? (some last))
      (endAfter head left.getLast? (some first)) (endAfter tail right.head? (some last))
      (left ++ chain ++ right) := by
  have firstIs : chain.head? = some first := by
    rcases List.exists_cons_of_ne_nil some_ with ⟨node, rest, rfl⟩
    exact fwd.1.symm
  have lastIs : chain.getLast? = some last := by
    rw [← List.head?_reverse]
    rcases List.exists_cons_of_ne_nil (List.reverse_ne_nil_iff.mpr some_) with ⟨node, rest, split⟩
    rw [split] at bwd ⊢
    exact bwd.1.symm
  have mirror : (left ++ chain ++ right).reverse = right.reverse ++ chain.reverse ++ left.reverse := by
    rw [List.reverse_append, List.reverse_append, List.append_assoc]
  constructor
  · exact linked.fwd.spliced fwd lastIs distinct
  · have back := linked.bwd
    rw [List.reverse_append] at back
    have spliced := back.spliced bwd (by rw [List.getLast?_reverse]; exact firstIs)
      (by rw [← mirror]; exact List.nodup_reverse.mpr distinct)
    rw [List.head?_reverse, List.getLast?_reverse] at spliced
    rw [mirror]
    exact spliced

theorem unlink (linked : Linked next prev head tail (left ++ node :: right)) :
    Linked (bend next left.getLast? (next node)) (bend prev right.head? (prev node))
      (endAfter head left.getLast? (next node)) (endAfter tail right.head? (prev node))
      (left ++ right) := by
  have distinct := linked.nodup
  have mirror : (left ++ node :: right).reverse = right.reverse ++ node :: left.reverse := by
    rw [List.reverse_append, List.reverse_cons, List.append_assoc]
    rfl
  constructor
  · exact linked.fwd.skipped distinct
  · have back := linked.bwd
    rw [mirror] at back
    have skipped := back.skipped (by rw [← mirror]; exact List.nodup_reverse.mpr distinct)
    rw [List.getLast?_reverse, ← List.reverse_append] at skipped
    exact skipped

end Linked

end Foundation
end TerseDsa
