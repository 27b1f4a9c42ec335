import TerseDsa.List.Chain

namespace TerseDsa

open Foundation Run

/-!
# Linking and unlinking

The pointer steps that all list operations are made of: a chain is linked in
at a place, a node is unlinked, and the nodes of one list go to an end of
another.
-/

namespace TdaList

variable {α C S : Type} {heap : ListMem α} {self after src : TdaList} {tag : AlTag}
  {nodes left right others : List (Addr × α)} {entry first last : Addr × α} {addr : Addr} {val : α}

/-! ## Looking at nodes -/

theorem Holds.at (holds : Holds heap.blocks self nodes) (inside : addr ∈ addrs nodes) :
    exists val, (addr, val) ∈ nodes ∧ NodeAt heap.blocks (nodeTag self) (addr, val) := by
  rcases mem_addrs.mp inside with ⟨⟨addr, val⟩, member, rfl⟩
  exact ⟨val, member, holds.stored _ member⟩

theorem Holds.next_eq (holds : Holds heap.blocks self (left ++ (addr, val) :: right)) :
    nextLink heap.blocks addr = (addrs right).head? := by
  have linked := holds.linked
  rw [addrs_append, addrs_cons] at linked
  exact linked.next_eq

theorem Holds.prev_eq (holds : Holds heap.blocks self (left ++ (addr, val) :: right)) :
    prevLink heap.blocks addr = (addrs left).getLast? := by
  have linked := holds.linked
  rw [addrs_append, addrs_cons] at linked
  exact linked.prev_eq

theorem ends_readIn (holds : Holds heap.blocks self (left ++ (addr, val) :: right))
    {post : ListNode α -> ListMem α -> Prop} :
    Ends (readNode addr) heap post <->
      post ⟨(addrs right).head?, (addrs left).getLast?, val⟩ heap := by
  rw [ends_readNode (holds.stored _ (List.mem_append_right _ List.mem_cons_self)),
    holds.next_eq, holds.prev_eq]

theorem ends_assertNode (holds : Holds heap.blocks self nodes) (inside : addr ∈ addrs nodes)
    {post : Unit -> ListMem α -> Prop} :
    Ends (assertNode α addr) heap post <-> post () heap := by
  rcases holds.at inside with ⟨val, _, here⟩
  have back : forall {post : Unit -> ListMem α -> Prop},
      Ends (checkPrev α addr (prevLink heap.blocks addr)) heap post <-> post () heap := by
    intro post
    cases prev : prevLink heap.blocks addr with
    | none => exact ends_pure _ _ _
    | some other =>
        have neighbour := holds.linked.of_prev inside prev
        rcases holds.at neighbour.1 with ⟨otherVal, _, there⟩
        simp only [checkPrev, ends_bind, ends_readNode there, ends_require, neighbour.2,
          true_and]
  have fore : forall {post : Unit -> ListMem α -> Prop},
      Ends (checkNext α addr (nextLink heap.blocks addr)) heap post <-> post () heap := by
    intro post
    cases next : nextLink heap.blocks addr with
    | none => exact ends_pure _ _ _
    | some other =>
        have neighbour := holds.linked.of_next inside next
        rcases holds.at neighbour.1 with ⟨otherVal, _, there⟩
        simp only [checkNext, ends_bind, ends_readNode there, ends_require, neighbour.2,
          true_and]
  simp only [assertNode, ends_bind, ends_readNode here, back, fore]

/-- Every node that the list has is found in it. -/
theorem ends_ownsNode (holds : Holds heap.blocks self nodes)
    {post : Bool -> ListMem α -> Prop} :
    Ends (ownsNode α self addr) heap post <-> post (decide (addr ∈ addrs nodes)) heap := by
  have found : Ends (ownsNode α self addr) heap fun owned later =>
      owned = decide (addr ∈ addrs nodes) ∧ later = heap := by
    unfold ownsNode
    rw [holds.len]
    apply ends_loop (fun todo cur later => later = heap ∧ exists passed rest,
      nodes = passed ++ rest ∧ cur = (addrs rest).head? ∧ todo = rest.length ∧
        addr ∉ addrs passed)
    · intro todo cur later state
      rcases state with ⟨rfl, passed, rest, split, rfl, rfl, not_⟩
      cases rest with
      | nil =>
          simp only [addrs_nil, List.head?_nil, ends_pure, and_true]
          rw [split, List.append_nil]
          exact (decide_eq_false not_).symm
      | cons node rest =>
          cases node with
          | mk other otherVal =>
              simp only [addrs_cons, List.head?_cons]
              by_cases here : other = addr
              · simp only [if_pos here, ends_pure, and_true]
                rw [split, ← here]
                exact (decide_eq_true (by simp)).symm
              · rw [if_neg here]
                rw [split] at holds
                simp only [ends_bind, ends_readIn holds, ends_pure]
                refine ⟨rest.length, Nat.lt_succ_self _, True.intro, passed ++ [(other, otherVal)], rest,
                  ?_, rfl, rfl, ?_⟩
                · rw [split, List.append_assoc]
                  rfl
                · simp only [addrs_append, addrs_cons, addrs_nil, List.mem_append,
                    List.mem_singleton, not_or]
                  exact ⟨not_, Ne.symm here⟩
    · exact ⟨rfl, [], nodes, rfl, holds.linked.head_eq, rfl, List.not_mem_nil⟩
    · exact Nat.lt_succ_self _
  rcases found with ⟨owned, later, ran, rfl, rfl⟩
  constructor
  · exact fun ends => ends.of_eq ran
  · exact fun after => ⟨_, _, ran, after⟩

theorem ends_expectOwned (holds : Holds heap.blocks self nodes) (inside : addr ∈ addrs nodes)
    {post : Unit -> ListMem α -> Prop} :
    Ends (expectOwned α self addr) heap post <-> post () heap := by
  simp only [expectOwned, ends_bind, ends_assertNode holds inside, ends_ownsNode holds,
    ends_require, inside, decide_true, true_and]

/-- The node before a place, which is the last one for the place behind all. -/
theorem ends_prevOf (holds : Holds heap.blocks self (left ++ right)) {post : Option Addr -> ListMem α -> Prop} :
    Ends (prevOf α self (addrs right).head?) heap post <-> post (addrs left).getLast? heap := by
  cases right with
  | nil =>
      rw [List.append_nil] at holds
      rw [addrs_nil, List.head?_nil, prevOf, ends_pure, holds.linked.tail_eq]
  | cons entry right =>
      rcases entry with ⟨node, val⟩
      rw [addrs_cons, List.head?_cons, prevOf, ends_bind, ends_readIn holds, ends_pure]

/-- The elems are read from the front to the back. -/
theorem ends_copyToSpan (holds : Holds heap.blocks self nodes) {post : List α -> ListMem α -> Prop} :
    Ends (copyToSpan self self.len self.elem) heap post <-> post (elems nodes) heap := by
  have read : Ends (copyToSpan self self.len self.elem) heap fun vals later =>
      vals = elems nodes ∧ later = heap := by
    rw [copyToSpan, ends_bind, ends_assertList holds.asserts, ends_bind, ends_require]
    refine ⟨rfl, ?_⟩
    rw [ends_bind, ends_require]
    refine ⟨rfl, ?_⟩
    apply ends_loop (fun todo (vars : Option Addr × List α) later => later = heap ∧ exists passed rest,
      nodes = passed ++ rest ∧ vars.1 = (addrs rest).head? ∧ vars.2 = elems passed ∧ todo = rest.length)
    · rintro todo ⟨cur, vals⟩ later ⟨rfl, passed, rest, split, rfl, rfl, rfl⟩
      dsimp only
      cases rest with
      | nil =>
          rw [List.append_nil] at split
          rw [addrs_nil, List.head?_nil, ends_pure, split]
          exact ⟨rfl, rfl⟩
      | cons entry rest =>
          rcases entry with ⟨node, val⟩
          have here := holds
          rw [split] at here
          simp only [addrs_cons, List.head?_cons, ends_bind, ends_readIn here, ends_pure]
          refine ⟨rest.length, Nat.lt_succ_self _, True.intro, passed ++ [(node, val)], rest, ?_, rfl, ?_, rfl⟩
          · rw [split, List.append_assoc]
            rfl
          · rw [elems, elems, List.map_append]
            rfl
    · exact ⟨rfl, [], nodes, rfl, holds.linked.head_eq, rfl, rfl⟩
    · exact Nat.lt_succ_of_le (Nat.le_of_eq holds.len.symm)
  rcases read with ⟨vals, later, ran, rfl, rfl⟩
  constructor
  · exact fun ends => ends.of_eq ran
  · exact fun after => ⟨_, _, ran, after⟩

theorem ends_setElem {old : α} (holds : Holds heap.blocks self (left ++ (addr, old) :: right))
    {post : Unit -> ListMem α -> Prop}
    (done : forall later : ListMem α,
      Tends heap.blocks later.blocks self self (left ++ (addr, old) :: right) (left ++ (addr, val) :: right) ->
      post () later) :
    Ends (setElem addr val) heap post := by
  have inside : (addr, old) ∈ left ++ (addr, old) :: right := List.mem_append_right _ List.mem_cons_self
  have at_ := holds.stored _ inside
  have same : addrs (left ++ (addr, val) :: right) = addrs (left ++ (addr, old) :: right) := by
    rw [addrs_append, addrs_append]
    rfl
  simp only [setElem, ends_bind, ends_readNode at_, Heap.ends_write at_.here]
  apply done
  have distinct := holds.nodup
  rw [addrs_append, addrs_cons] at distinct
  have fresh : addr ∉ addrs left ++ addrs right := (List.nodup_middle.mp distinct).notMem
  have links : forall other, nextLink (Function.update heap.blocks addr
        (some ⟨nodeTag self, ⟨nextLink heap.blocks addr, prevLink heap.blocks addr, val⟩⟩)) other =
        nextLink heap.blocks other ∧
      prevLink (Function.update heap.blocks addr
        (some ⟨nodeTag self, ⟨nextLink heap.blocks addr, prevLink heap.blocks addr, val⟩⟩)) other =
        prevLink heap.blocks other := by
    intro other
    by_cases here : other = addr
    · subst here
      simp only [nextLink, prevLink, Function.update_self, Option.bind_some, and_self]
    · exact ⟨nextLink_congr (Function.update_of_ne here _ _), prevLink_congr (Function.update_of_ne here _ _)⟩
  refine ⟨⟨holds.real, holds.elem, holds.layout, ?_, ?_, ?_⟩, ?_, rfl, rfl⟩
  · intro entry member
    rcases List.mem_append.mp member with before | behind
    · refine (holds.stored entry (List.mem_append_left _ before)).congr (Function.update_of_ne ?_ _ _)
      rintro rfl
      exact fresh (List.mem_append_left _ (addr_mem before))
    · rcases List.mem_cons.mp behind with rfl | after
      · exact ⟨_, _, Function.update_self _ _ _⟩
      · refine (holds.stored entry (List.mem_append_right _ (List.mem_cons_of_mem _ after))).congr
          (Function.update_of_ne ?_ _ _)
        rintro rfl
        exact fresh (List.mem_append_right _ (addr_mem after))
  · rw [same]
    exact holds.linked.congr fun other _ => links other
  · rw [holds.len, List.length_append, List.length_append]
    rfl
  · rw [same, Heap.put_blocks]
    exact Evolves.of_write (addr_mem inside)

/-! ## Linking -/

theorem ends_followWith {place target : Option Addr}
    (there : forall node, place = some node -> exists tag val, NodeAt heap.blocks tag (node, val))
    {post : TdaList -> ListMem α -> Prop}
    (holds : forall later : ListMem α,
      Wired heap.blocks later.blocks place.toList (bend (nextLink heap.blocks) place target)
        (prevLink heap.blocks) ->
      post { self with head := endAfter self.head place target } later) :
    Ends (followWith α self place target) heap post := by
  cases place with
  | none =>
      simp only [followWith, ends_pure]
      exact holds heap (Wired.refl _ _)
  | some node =>
      rcases there node rfl with ⟨tag, val, at_⟩
      simp only [followWith, ends_bind]
      apply ends_setNext at_
      intro later wired
      simp only [ends_pure]
      exact holds later wired

theorem ends_precedeWith {place target : Option Addr}
    (there : forall node, place = some node -> exists tag val, NodeAt heap.blocks tag (node, val))
    {post : TdaList -> ListMem α -> Prop}
    (holds : forall later : ListMem α,
      Wired heap.blocks later.blocks place.toList (nextLink heap.blocks)
        (bend (prevLink heap.blocks) place target) ->
      post { self with tail := endAfter self.tail place target } later) :
    Ends (precedeWith α self place target) heap post := by
  cases place with
  | none =>
      simp only [precedeWith, ends_pure]
      exact holds heap (Wired.refl _ _)
  | some node =>
      rcases there node rfl with ⟨tag, val, at_⟩
      simp only [precedeWith, ends_bind]
      apply ends_setPrev at_
      intro later wired
      simp only [ends_pure]
      exact holds later wired

end TdaList
end TerseDsa
