import TerseDsa.Foundation.Sift
import TerseDsa.List.Editing

namespace TerseDsa

open Foundation Run

/-!
# Taking nodes out

A node is unlinked and given back.  Nodes that stay keep their identities, so
that what is left of a list is a part of the sequence it stood for.
-/

namespace TdaList

variable {α C S : Type} {heap : ListMem α} {self after : TdaList} {nodes left right : List (Addr × α)} {addr : Addr}
  {val : α}

/-- A node has at least its two links. -/
theorem ckdNodeLayout_pos {elem layout : Layout} (same : ckdNodeLayout elem = some layout) : 0 < layout.size := by
  rcases Option.bind_eq_some_iff.mp same with ⟨⟨links, offset⟩, extended, padded⟩
  have first : 2 * Layout.ofPointer.size ≤ links.size := Layout.ckdExtend_size_le extended
  exact Nat.lt_of_lt_of_le (by decide) (first.trans (Layout.ckdPad_size_le padded))

theorem Holds.neighbour (holds : Holds heap.blocks self nodes) {node : Addr} (inside : node ∈ addrs nodes) :
    exists tag val, NodeAt heap.blocks tag (node, val) := by
  rcases holds.at inside with ⟨val, _, at_⟩
  exact ⟨_, val, at_⟩

/-- The nodes around are linked to each other; the node itself is still there. -/
theorem ends_unlinkNode (holds : Holds heap.blocks self (left ++ (addr, val) :: right))
    {post : TdaList -> ListMem α -> Prop}
    (done : forall (after : TdaList) (later : ListMem α), Holds later.blocks after (left ++ right) ->
      (forall other, other ∉ addrs (left ++ right) -> later.blocks other = heap.blocks other) ->
      after.elem = self.elem -> after.al = self.al -> post after later) :
    Ends (unlinkNode α self addr) heap post := by
  have inside : addr ∈ addrs (left ++ (addr, val) :: right) := by
    rw [addrs_append]
    exact List.mem_append_right _ List.mem_cons_self
  have some_ : self.len > 0 := by
    rw [holds.len, List.length_append, List.length_cons]
    omega
  have linked := holds.linked
  rw [addrs_append, addrs_cons] at linked
  have taken := linked.unlink
  rw [linked.next_eq, linked.prev_eq] at taken
  simp only [unlinkNode, ends_bind, ends_assertNode holds inside, ends_require, some_, true_and, ends_readIn holds]
  apply ends_followWith
  · intro node at_
    apply holds.neighbour
    rw [addrs_append]
    exact List.mem_append_left _ (List.mem_of_getLast? at_)
  · intro mid first
    apply ends_precedeWith
    · intro node at_
      have there : node ∈ addrs (left ++ (addr, val) :: right) := by
        rw [addrs_append, addrs_cons]
        exact List.mem_append_right _ (List.mem_cons_of_mem _ (List.mem_of_head? at_))
      rcases holds.neighbour there with ⟨tag, val, at_⟩
      exact ⟨tag, val, first.node at_⟩
    · intro later second
      rw [first.next_eq, first.prev_eq] at second
      have wide : forall node, node ∈ (addrs left).getLast?.toList -> node ∈ addrs (left ++ right) := by
        intro node member
        rw [addrs_append]
        exact List.mem_append_left _ (List.mem_of_getLast? (Option.mem_toList.mp member))
      have wide' : forall node, node ∈ (addrs right).head?.toList -> node ∈ addrs (left ++ right) := by
        intro node member
        rw [addrs_append]
        exact List.mem_append_right _ (List.mem_of_head? (Option.mem_toList.mp member))
      have wired := (first.mono wide).trans (second.mono wide')
      simp only [ends_pure]
      have now : Holds later.blocks { self with
          head := endAfter self.head (addrs left).getLast? (addrs right).head?
          tail := endAfter self.tail (addrs right).head? (addrs left).getLast?
          len := self.len - 1 } (left ++ right) := by
        refine ⟨holds.real, holds.elem, holds.layout, ?_, ?_, ?_⟩
        · intro entry member
          apply wired.node
          apply holds.stored
          rw [List.mem_append] at member ⊢
          exact member.imp_right (List.mem_cons_of_mem _)
        · rw [wired.next_eq, wired.prev_eq, addrs_append]
          exact taken
        · have len := holds.len
          rw [List.length_append, List.length_cons] at len
          change self.len - 1 = _
          rw [List.length_append]
          omega
      exact done _ later now wired.outside rfl rfl

theorem ends_removeNodeImpl (holds : Holds heap.blocks self (left ++ (addr, val) :: right))
    {post : TdaList -> ListMem α -> Prop}
    (done : forall (after : TdaList) (later : ListMem α),
      Tends heap.blocks later.blocks self after (left ++ (addr, val) :: right) (left ++ right) -> post after later) :
    Ends (removeNodeImpl α self addr) heap post := by
  have distinct := holds.nodup
  rw [addrs_append, addrs_cons] at distinct
  have gone : addr ∉ addrs (left ++ right) := by
    rw [addrs_append]
    exact (List.nodup_middle.mp distinct).notMem
  have member : (addr, val) ∈ left ++ (addr, val) :: right := List.mem_append_right _ List.mem_cons_self
  simp only [removeNodeImpl, ends_bind]
  apply ends_unlinkNode holds
  intro after mid taken outside sameElem sameAl
  rcases Option.isSome_iff_exists.mp holds.layout with ⟨layout, node⟩
  have sized : 0 < layout.size := ckdNodeLayout_pos node
  have here := (holds.stored _ member).here
  rw [← outside addr gone, nodeTag, node] at here
  have layoutOf : ckdNodeLayout after.elem = some layout := by
    rw [sameElem, node]
  simp only [deallocNode, nodeLayout, layoutOf, ends_bind, ends_demand_some, sameAl]
  rw [ends_dealloc_some holds.real sized here]
  have now : Holds (mid.put addr none).blocks after (left ++ right) := by
    apply taken.congr
    intro other inside
    rw [Heap.put_blocks, Function.update_of_ne]
    rintro rfl
    exact gone inside
  simp only [ends_assertList now.asserts, ends_pure]
  refine done after _ ⟨now, ?_, sameElem, sameAl⟩
  have ring : Evolves heap.blocks mid.blocks (addrs (left ++ (addr, val) :: right))
      (addrs (left ++ (addr, val) :: right)) := by
    apply Evolves.of_within
    intro other away
    apply outside
    intro inside
    apply away
    rw [addrs_append] at inside ⊢
    exact (List.mem_append.mp inside).elim (List.mem_append_left _)
      fun behind => List.mem_append_right _ (List.mem_cons_of_mem _ behind)
  rw [Heap.put_blocks]
  apply ring.trans
  apply Evolves.of_release
  · rw [addrs_append]
    exact List.mem_append_right _ List.mem_cons_self
  · intro other
    constructor
    · intro inside
      refine ⟨?_, ?_⟩
      · rintro rfl
        exact gone inside
      · rw [addrs_append] at inside ⊢
        exact (List.mem_append.mp inside).elim (List.mem_append_left _)
          fun behind => List.mem_append_right _ (List.mem_cons_of_mem _ behind)
    · rintro ⟨different, inside⟩
      rw [addrs_append, addrs_cons] at inside
      rw [addrs_append]
      rcases List.mem_append.mp inside with before | behind
      · exact List.mem_append_left _ before
      · rcases List.mem_cons.mp behind with same | behind
        · exact absurd same different
        · exact List.mem_append_right _ behind

/-! ## Taking off the ends -/

theorem ends_popFront (holds : Holds heap.blocks self ((addr, val) :: nodes)) {post : TdaList -> ListMem α -> Prop}
    (done : forall (after : TdaList) (later : ListMem α),
      Tends heap.blocks later.blocks self after ((addr, val) :: nodes) nodes -> post after later) :
    Ends (popFront α self) heap post := by
  have some_ : self.len > 0 := by
    rw [holds.len, List.length_cons]
    exact Nat.succ_pos _
  have place : Holds heap.blocks self ([] ++ (addr, val) :: nodes) := holds
  rw [popFront, ends_bind, ends_assertList holds.asserts, ends_bind, ends_require]
  refine ⟨some_, ?_⟩
  rw [holds.linked.head_eq, addrs_cons, List.head?_cons, ends_bind, ends_demand_some]
  exact ends_removeNodeImpl place done

theorem ends_popFrontTo (holds : Holds heap.blocks self ((addr, val) :: nodes)) {post : α × TdaList -> ListMem α -> Prop}
    (done : forall (after : TdaList) (later : ListMem α),
      Tends heap.blocks later.blocks self after ((addr, val) :: nodes) nodes -> post (val, after) later) :
    Ends (popFrontTo self) heap post := by
  have some_ : self.len > 0 := by
    rw [holds.len, List.length_cons]
    exact Nat.succ_pos _
  have place : Holds heap.blocks self ([] ++ (addr, val) :: nodes) := holds
  rw [popFrontTo, ends_bind, ends_assertList holds.asserts, ends_bind, ends_require]
  refine ⟨some_, ?_⟩
  rw [holds.linked.head_eq, addrs_cons, List.head?_cons, ends_bind, ends_demand_some, ends_bind,
    ends_readIn place, ends_bind]
  apply ends_removeNodeImpl place
  exact fun after later tends => (ends_pure _ _ _).mpr (done after later tends)

theorem ends_popBack (holds : Holds heap.blocks self (nodes ++ [(addr, val)])) {post : TdaList -> ListMem α -> Prop}
    (done : forall (after : TdaList) (later : ListMem α),
      Tends heap.blocks later.blocks self after (nodes ++ [(addr, val)]) nodes -> post after later) :
    Ends (popBack α self) heap post := by
  have some_ : self.len > 0 := by
    rw [holds.len, List.length_append]
    exact Nat.succ_pos _
  rw [popBack, ends_bind, ends_assertList holds.asserts, ends_bind, ends_require]
  refine ⟨some_, ?_⟩
  rw [holds.linked.tail_eq, addrs_append, addrs_cons, addrs_nil, List.getLast?_concat, ends_bind, ends_demand_some]
  apply ends_removeNodeImpl holds
  rw [List.append_nil]
  exact done

theorem ends_popBackTo (holds : Holds heap.blocks self (nodes ++ [(addr, val)])) {post : α × TdaList -> ListMem α -> Prop}
    (done : forall (after : TdaList) (later : ListMem α),
      Tends heap.blocks later.blocks self after (nodes ++ [(addr, val)]) nodes -> post (val, after) later) :
    Ends (popBackTo self) heap post := by
  have some_ : self.len > 0 := by
    rw [holds.len, List.length_append]
    exact Nat.succ_pos _
  rw [popBackTo, ends_bind, ends_assertList holds.asserts, ends_bind, ends_require]
  refine ⟨some_, ?_⟩
  rw [holds.linked.tail_eq, addrs_append, addrs_cons, addrs_nil, List.getLast?_concat, ends_bind, ends_demand_some,
    ends_bind, ends_readIn holds, ends_bind]
  apply ends_removeNodeImpl holds
  rw [List.append_nil]
  exact fun after later tends => (ends_pure _ _ _).mpr (done after later tends)

/-- A node is taken out that the list has. -/
theorem ends_removeNode (holds : Holds heap.blocks self (left ++ (addr, val) :: right))
    {post : TdaList -> ListMem α -> Prop}
    (done : forall (after : TdaList) (later : ListMem α),
      Tends heap.blocks later.blocks self after (left ++ (addr, val) :: right) (left ++ right) -> post after later) :
    Ends (removeNode α self addr) heap post := by
  have inside : addr ∈ addrs (left ++ (addr, val) :: right) := by
    rw [addrs_append]
    exact List.mem_append_right _ List.mem_cons_self
  rw [removeNode, ends_bind, ends_assertList holds.asserts, ends_bind, ends_expectOwned holds inside]
  exact ends_removeNodeImpl holds done

/-! ## Taking out what a predicate rejects -/

/-- The predicate is asked about the elem of every node, and nodes that stay keep their identities. -/
theorem ends_retain_nodes {pred : Pred α C} {ctx : C} (holds : Holds heap.blocks self nodes)
    {post : TdaList × C -> ListMem α -> Prop}
    (done : forall (after : TdaList) (later : ListMem α),
      Tends heap.blocks later.blocks self after nodes (sift (fun node => pred node.2) ctx nodes).1 ->
      post (after, (sift (fun node => pred node.2) ctx nodes).2) later) :
    Ends (retain self pred ctx) heap post := by
  simp only [retain, ends_bind, ends_assertList holds.asserts]
  rw [holds.len]
  apply ends_loop (fun todo (vars : Option Addr × TdaList × C) later => exists asked rest,
    nodes = asked ++ rest ∧ vars.1 = (addrs rest).head? ∧ todo = rest.length ∧
      Tends heap.blocks later.blocks self vars.2.1 nodes ((sift (fun node => pred node.2) ctx asked).1 ++ rest) ∧
      vars.2.2 = (sift (fun node => pred node.2) ctx asked).2)
  · rintro todo ⟨cur, list, left⟩ later ⟨asked, rest, split, rfl, rfl, tends, state⟩
    simp only at tends state ⊢
    subst state
    cases rest with
    | nil =>
        rw [List.append_nil] at split tends
        subst split
        simp only [addrs_nil, List.head?_nil, ends_pure, ends_assertList tends.holds.asserts]
        exact done list later tends
    | cons node rest =>
        rcases node with ⟨here, elem⟩
        simp only [addrs_cons, List.head?_cons, ends_bind, ends_readIn tends.holds]
        cases answer : (pred elem (sift (fun node => pred node.2) ctx asked).2).1 with
        | true =>
            simp only [if_true, ends_pure]
            refine ⟨rest.length, Nat.lt_succ_self _, asked ++ [(here, elem)], rest, ?_, rfl, rfl, ?_, ?_⟩
            · rw [split, List.append_assoc]
              rfl
            · rw [sift_snoc, answer, if_pos rfl, List.append_assoc]
              exact tends
            · rw [sift_snoc]
        | false =>
            simp only [Bool.false_eq_true, if_false, ends_bind]
            apply ends_removeNodeImpl tends.holds
            intro shorter last removed
            simp only [ends_pure]
            refine ⟨rest.length, Nat.lt_succ_self _, asked ++ [(here, elem)], rest, ?_, rfl, rfl, ?_, ?_⟩
            · rw [split, List.append_assoc]
              rfl
            · rw [sift_snoc, answer, if_neg Bool.false_ne_true, List.append_nil]
              exact tends.trans removed
            · rw [sift_snoc]
  · exact ⟨[], nodes, rfl, holds.linked.head_eq, rfl, Tends.refl holds, rfl⟩
  · exact Nat.lt_succ_self _

/-- The predicate is asked about each elem once, in order, and the nodes it rejects are given back. -/
theorem ends_retain {pred : Pred α C} {ctx : C} (holds : Holds heap.blocks self nodes)
    {post : TdaList × C -> ListMem α -> Prop}
    (done : forall (after : TdaList) (later : ListMem α) (kept : List (Addr × α)),
      Tends heap.blocks later.blocks self after nodes kept -> kept.Sublist nodes ->
      elems kept = (sift pred ctx (elems nodes)).1 -> post (after, (sift pred ctx (elems nodes)).2) later) :
    Ends (retain self pred ctx) heap post := by
  have same : sift pred ctx (elems nodes) = _ := sift_map Prod.snd
  rw [same] at done
  apply ends_retain_nodes holds
  exact fun after later tends => done after later _ tends sift_sublist rfl

end TdaList
end TerseDsa
