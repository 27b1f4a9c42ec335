import TerseDsa.List.Removal

namespace TerseDsa

open Foundation Run

/-!
# Making nodes

New nodes are made one by one and linked in; when one is refused those that
were made for the same purpose are given back, so that a refusal leaves the
memory as it was.
-/

namespace TdaList

variable {α C S : Type} {heap : ListMem α} {blocks later : Blocks AlTag (ListNode α)} {self src after : TdaList}
  {nodes left right chain others : List (Addr × α)} {first last node : Addr} {val : α} {vals : List α}
  {elem : Layout} {al : Al}

/-! ## Linking a chain in -/

/-- Nodes that are linked to each other are put in at a place of the list. -/
theorem ends_linkChain {stop away : Option Addr} (holds : Holds heap.blocks self (left ++ right))
    (stored : forall entry, entry ∈ chain -> NodeAt heap.blocks (nodeTag self) entry)
    (fwd : Seg (nextLink heap.blocks) (some first) (addrs chain) stop)
    (bwd : Seg (prevLink heap.blocks) (some last) (addrs chain).reverse away) (some_ : chain ≠ [])
    (distinct : (addrs (left ++ chain ++ right)).Nodup) {post : TdaList -> ListMem α -> Prop}
    (done : forall (after : TdaList) (later : ListMem α), Holds later.blocks after (left ++ chain ++ right) ->
      Rewired heap.blocks later.blocks (addrs (left ++ chain ++ right)) -> after.elem = self.elem ->
      after.al = self.al -> post after later) :
    Ends (linkChain α self first last chain.length (addrs left).getLast? (addrs right).head?) heap post := by
  have nonempty : addrs chain ≠ [] := by
    rwa [addrs, ne_eq, List.map_eq_nil_iff]
  have firstIn : first ∈ addrs chain := by
    rcases List.exists_cons_of_ne_nil nonempty with ⟨node, rest, split⟩
    rw [split] at fwd ⊢
    rw [Option.some_inj.mp fwd.1]
    exact List.mem_cons_self
  have lastIn : last ∈ addrs chain := by
    rcases List.exists_cons_of_ne_nil (List.reverse_ne_nil_iff.mpr nonempty) with ⟨node, rest, split⟩
    rw [split] at bwd
    rw [← List.mem_reverse, split, Option.some_inj.mp bwd.1]
    exact List.mem_cons_self
  have inAll : forall addr, addr ∈ addrs chain -> addr ∈ addrs (left ++ chain ++ right) := by
    intro addr inside
    rw [addrs_append, addrs_append]
    exact List.mem_append_left _ (List.mem_append_right _ inside)
  have around : forall addr, addr ∈ addrs (left ++ right) -> addr ∈ addrs (left ++ chain ++ right) := by
    intro addr inside
    rw [addrs_append] at inside
    rw [addrs_append, addrs_append]
    exact (List.mem_append.mp inside).elim (fun before => List.mem_append_left _ (List.mem_append_left _ before))
      (List.mem_append_right _)
  have leftIn : forall addr, (addrs left).getLast? = some addr -> addr ∈ addrs (left ++ right) := by
    intro addr at_
    rw [addrs_append]
    exact List.mem_append_left _ (List.mem_of_getLast? at_)
  have rightIn : forall addr, (addrs right).head? = some addr -> addr ∈ addrs (left ++ right) := by
    intro addr at_
    rw [addrs_append]
    exact List.mem_append_right _ (List.mem_of_head? at_)
  have linked := holds.linked
  rw [addrs_append] at linked
  have inserted := linked.insert fwd bwd nonempty (by rwa [addrs_append, addrs_append] at distinct)
  rcases mem_addrs.mp firstIn with ⟨⟨_, firstVal⟩, firstMember, rfl⟩
  rcases mem_addrs.mp lastIn with ⟨⟨_, lastVal⟩, lastMember, rfl⟩
  rw [linkChain, ends_bind]
  apply ends_setPrev (stored _ firstMember)
  intro one wiredFirst
  rw [ends_bind]
  apply ends_setNext (wiredFirst.node (stored _ lastMember))
  intro two wiredLast
  have onFirst := wiredFirst.mono fun addr inside => inAll addr (List.mem_singleton.mp inside ▸ firstIn)
  have onLast := wiredLast.mono fun addr inside => inAll addr (List.mem_singleton.mp inside ▸ lastIn)
  have firstTwo := onFirst.trans onLast
  rw [ends_bind]
  apply ends_followWith
  · intro node at_
    rcases holds.neighbour (leftIn node at_) with ⟨tag, val, there⟩
    exact ⟨tag, val, firstTwo.node there⟩
  intro three wiredLeft
  have onLeft := wiredLeft.mono fun addr inside => around addr (leftIn addr (Option.mem_toList.mp inside))
  have firstThree := firstTwo.trans onLeft
  rw [ends_bind]
  apply ends_precedeWith
  · intro node at_
    rcases holds.neighbour (rightIn node at_) with ⟨tag, val, there⟩
    exact ⟨tag, val, firstThree.node there⟩
  intro later wiredRight
  have wired := firstThree.trans (wiredRight.mono fun addr inside =>
    around addr (rightIn addr (Option.mem_toList.mp inside)))
  rw [wiredLeft.next_eq, wiredLeft.prev_eq, wiredLast.next_eq, wiredLast.prev_eq, wiredFirst.next_eq,
    wiredFirst.prev_eq] at wired
  rw [ends_pure]
  refine done _ later ⟨holds.real, holds.elem, holds.layout, ?_, ?_, ?_⟩ wired.rewired rfl rfl
  · intro entry inside
    apply wired.node
    rcases List.mem_append.mp inside with inFront | behind
    · rcases List.mem_append.mp inFront with before | among
      · exact holds.stored entry (List.mem_append_left _ before)
      · exact stored entry among
    · exact holds.stored entry (List.mem_append_right _ behind)
  · rw [wired.next_eq, wired.prev_eq, addrs_append, addrs_append]
    exact inserted
  · have len := holds.len
    change self.len + chain.length = _
    simp only [List.length_append] at len ⊢
    omega

/-- A node that is in no list is put in at a place. -/
theorem ends_linkNode (holds : Holds heap.blocks self (left ++ right))
    (stored : NodeAt heap.blocks (nodeTag self) (node, val)) (fresh : node ∉ addrs (left ++ right))
    {post : TdaList -> ListMem α -> Prop}
    (done : forall (after : TdaList) (later : ListMem α), Holds later.blocks after (left ++ (node, val) :: right) ->
      Rewired heap.blocks later.blocks (addrs (left ++ (node, val) :: right)) -> after.elem = self.elem ->
      after.al = self.al -> post after later) :
    Ends (linkNode α self node (addrs left).getLast? (addrs right).head?) heap post := by
  have distinct : (addrs (left ++ [(node, val)] ++ right)).Nodup := by
    have nodup := holds.nodup
    rw [addrs_append] at fresh nodup
    rw [List.append_assoc, addrs_append, addrs_append, addrs_cons, addrs_nil]
    exact List.nodup_middle.mpr (List.nodup_cons.mpr ⟨fresh, nodup⟩)
  have alone : forall link : Addr -> Option Addr, Seg link (some node) [node] (link node) := fun link => ⟨rfl, rfl⟩
  have single : forall entry, entry ∈ [(node, val)] -> NodeAt heap.blocks (nodeTag self) entry := by
    intro entry inside
    rw [List.mem_singleton.mp inside]
    exact stored
  have split : left ++ [(node, val)] ++ right = left ++ (node, val) :: right := by
    rw [List.append_assoc]
    rfl
  rw [linkNode]
  apply ends_linkChain holds single (alone (nextLink heap.blocks)) (alone (prevLink heap.blocks))
    (List.cons_ne_nil _ _) distinct
  rw [split]
  exact done

/-! ## What is granted -/

section Supplied

variable {count : Nat} {addr : Addr} {target prev next : Option Addr}

theorem keeps_setNext : Run.Keeps (fun heap => heap.Supplies count) (setNext α addr target) :=
  Heap.Supplies.keeps_read.bind fun _ => Heap.Supplies.keeps_write

theorem keeps_setPrev : Run.Keeps (fun heap => heap.Supplies count) (setPrev α addr target) :=
  Heap.Supplies.keeps_read.bind fun _ => Heap.Supplies.keeps_write

theorem keeps_linkNode : Run.Keeps (fun heap => heap.Supplies count) (linkNode α self addr prev next) := by
  refine keeps_setPrev.bind fun _ => keeps_setNext.bind fun _ => Run.Keeps.bind ?_ fun _ => Run.Keeps.bind ?_ fun _ =>
    .of_pure _
  · cases prev with
    | none => exact .of_pure _
    | some prev => exact keeps_setNext.bind fun _ => .of_pure _
  · cases next with
    | none => exact .of_pure _
    | some next => exact keeps_setPrev.bind fun _ => .of_pure _

theorem keeps_assertNode : Run.Keeps (fun heap => heap.Supplies count) (assertNode α addr) := by
  refine Heap.Supplies.keeps_read.bind fun cell => Run.Keeps.bind ?_ fun _ => ?_
  · cases cell.prev with
    | none => exact .of_pure _
    | some prev => exact Heap.Supplies.keeps_read.bind fun _ => .of_require _
  · cases cell.next with
    | none => exact .of_pure _
    | some next => exact Heap.Supplies.keeps_read.bind fun _ => .of_require _

/-- Where a request is granted, a node is made, and one request less is granted from there on. -/
theorem allows_insertBetween (supplies : heap.Supplies (count + 1)) :
    Allows (insertBetween self prev next val) heap fun result later =>
      result.1 = .ok ∧ later.Supplies count := by
  simp only [insertBetween, allocNode, nodeLayout, alloc, allows_bind]
  refine allows_demand fun layout layoutIs => ?_
  rw [if_neg (Nat.ne_of_gt (ckdNodeLayout_pos layoutIs)), allows_require]
  intro _
  refine supplies.allows_request.mono ?_
  rintro (_ | node) mid ⟨some_, more⟩
  · cases some_
  · simp only [allows_bind]
    intro after linked ran
    have now := keeps_linkNode mid more after linked ran
    simp only [assertList, allows_require, allows_pure]
    exact fun _ _ later asserted => ⟨trivial, keeps_assertNode linked now _ later asserted⟩

end Supplied

/-! ## One new node -/

/-- A node is made and put in at a place, or none is made since the request was refused. -/
theorem ends_insertBetween (holds : Holds heap.blocks self (left ++ right)) {post : Status × TdaList -> ListMem α -> Prop}
    (refused : ¬ heap.Supplies 1 -> heap.Spared (post (.errNoMem, self)))
    (done : forall (after : TdaList) (later : ListMem α) (node : Addr), heap.blocks node = none ->
      (forall count, heap.Supplies (count + 1) -> later.Supplies count) ->
      Tends heap.blocks later.blocks self after (left ++ right) (left ++ (node, val) :: right) ->
      post (.ok, after) later) :
    Ends (insertBetween self (addrs left).getLast? (addrs right).head? val) heap post := by
  have granted : Allows (insertBetween self (addrs left).getLast? (addrs right).head? val) heap
      fun result later => forall count, heap.Supplies (count + 1) -> result.1 = .ok ∧ later.Supplies count :=
    fun result later ran count supplies => allows_insertBetween supplies result later ran
  refine granted.ends ?_
  rcases Option.isSome_iff_exists.mp holds.layout with ⟨layout, layoutIs⟩
  have tag : nodeTag self = (self.al, layout) := by
    rw [nodeTag, layoutIs]
    rfl
  simp only [insertBetween, allocNode, nodeLayout, layoutIs, ends_bind, ends_demand_some]
  apply ends_alloc holds.real
  · intro later same
    rw [ends_pure]
    exact fun known => refused (fun supplies => nomatch (known 0 supplies).1) later same
  intro _ node mid free put
  have others : forall addr, heap.blocks addr ≠ none -> mid.blocks addr = heap.blocks addr := by
    intro addr live
    rw [put, Function.update_of_ne]
    rintro rfl
    exact live free
  have nowHolds : Holds mid.blocks self (left ++ right) :=
    holds.congr fun addr inside => others addr (holds.live inside)
  have made : mid.blocks node = some ⟨nodeTag self, ⟨none, none, val⟩⟩ := by
    rw [put, Function.update_self, tag]
  have fresh : node ∉ addrs (left ++ right) := fun inside => holds.live inside free
  simp only [ends_bind]
  apply ends_linkNode nowHolds ⟨none, none, made⟩ fresh
  intro after later now rewired sameElem sameAl
  have inside : node ∈ addrs (left ++ (node, val) :: right) := by
    rw [addrs_append, addrs_cons]
    exact List.mem_append_right _ List.mem_cons_self
  rw [ends_assertList now.asserts, ends_assertNode now inside, ends_pure]
  intro known
  refine done after later node free (fun count supplies => (known count supplies).2) ⟨now, ?_, sameElem, sameAl⟩
  have granted : Evolves heap.blocks mid.blocks (addrs (left ++ right)) (addrs (left ++ (node, val) :: right)) := by
    rw [put]
    apply Evolves.of_grant free
    intro addr
    rw [addrs_append, addrs_append, addrs_cons, List.mem_append, List.mem_append, List.mem_cons]
    exact or_left_comm
  exact granted.trans (Evolves.of_within rewired.outside)

theorem ends_pushFront (holds : Holds heap.blocks self nodes) {post : Status × TdaList -> ListMem α -> Prop}
    (refused : ¬ heap.Supplies 1 -> heap.Spared (post (.errNoMem, self)))
    (done : forall (after : TdaList) (later : ListMem α) (node : Addr), heap.blocks node = none ->
      (forall count, heap.Supplies (count + 1) -> later.Supplies count) ->
      Tends heap.blocks later.blocks self after nodes ((node, val) :: nodes) -> post (.ok, after) later) :
    Ends (pushFront self val) heap post := by
  rw [pushFront, ends_bind, ends_assertList holds.asserts, holds.linked.head_eq]
  have place : Holds heap.blocks self ([] ++ nodes) := holds
  exact ends_insertBetween place refused done

theorem ends_pushBack (holds : Holds heap.blocks self nodes) {post : Status × TdaList -> ListMem α -> Prop}
    (refused : ¬ heap.Supplies 1 -> heap.Spared (post (.errNoMem, self)))
    (done : forall (after : TdaList) (later : ListMem α) (node : Addr), heap.blocks node = none ->
      (forall count, heap.Supplies (count + 1) -> later.Supplies count) ->
      Tends heap.blocks later.blocks self after nodes (nodes ++ [(node, val)]) -> post (.ok, after) later) :
    Ends (pushBack self val) heap post := by
  rw [pushBack, ends_bind, ends_assertList holds.asserts, holds.linked.tail_eq]
  have place : Holds heap.blocks self (nodes ++ []) := by
    rwa [List.append_nil]
  apply ends_insertBetween place refused
  rw [List.append_nil]
  exact done

theorem ends_insertBefore {at_ : Addr} {there : α} (holds : Holds heap.blocks self (left ++ (at_, there) :: right))
    {post : Status × TdaList -> ListMem α -> Prop}
    (refused : ¬ heap.Supplies 1 -> heap.Spared (post (.errNoMem, self)))
    (done : forall (after : TdaList) (later : ListMem α) (node : Addr), heap.blocks node = none ->
      (forall count, heap.Supplies (count + 1) -> later.Supplies count) ->
      Tends heap.blocks later.blocks self after (left ++ (at_, there) :: right)
        (left ++ (node, val) :: (at_, there) :: right) -> post (.ok, after) later) :
    Ends (insertBefore self at_ val) heap post := by
  have inside : at_ ∈ addrs (left ++ (at_, there) :: right) := by
    rw [addrs_append, addrs_cons]
    exact List.mem_append_right _ List.mem_cons_self
  rw [insertBefore, ends_bind, ends_assertList holds.asserts, ends_bind, ends_expectOwned holds inside,
    ends_bind, ends_readIn holds]
  exact ends_insertBetween holds refused done

theorem ends_insertAfter {at_ : Addr} {there : α} (holds : Holds heap.blocks self (left ++ (at_, there) :: right))
    {post : Status × TdaList -> ListMem α -> Prop}
    (refused : ¬ heap.Supplies 1 -> heap.Spared (post (.errNoMem, self)))
    (done : forall (after : TdaList) (later : ListMem α) (node : Addr), heap.blocks node = none ->
      (forall count, heap.Supplies (count + 1) -> later.Supplies count) ->
      Tends heap.blocks later.blocks self after (left ++ (at_, there) :: right)
        (left ++ (at_, there) :: (node, val) :: right) -> post (.ok, after) later) :
    Ends (insertAfter self at_ val) heap post := by
  have inside : at_ ∈ addrs (left ++ (at_, there) :: right) := by
    rw [addrs_append, addrs_cons]
    exact List.mem_append_right _ List.mem_cons_self
  rw [insertAfter, ends_bind, ends_assertList holds.asserts, ends_bind, ends_expectOwned holds inside,
    ends_bind, ends_readIn holds]
  have split : left ++ (at_, there) :: right = left ++ [(at_, there)] ++ right := by
    rw [List.append_assoc]
    rfl
  have front : some at_ = (addrs (left ++ [(at_, there)])).getLast? := by
    rw [addrs_append, addrs_cons, addrs_nil, List.getLast?_concat]
  rw [split] at holds
  dsimp only
  rw [front]
  apply ends_insertBetween holds refused
  intro after later node free onward tends
  rw [← split, List.append_assoc] at tends
  exact done after later node free onward tends

/-! ## Giving all nodes back -/

/-- Every node is given back, and the list is empty. -/
theorem ends_clearNodes (holds : Holds heap.blocks self nodes) {post : TdaList -> ListMem α -> Prop}
    (done : forall later : ListMem α, Tends heap.blocks later.blocks self (setEmpty self) nodes [] ->
      post (setEmpty self) later) :
    Ends (clearNodes α self) heap post := by
  rcases Option.isSome_iff_exists.mp holds.layout with ⟨layout, layoutIs⟩
  have sized : 0 < layout.size := ckdNodeLayout_pos layoutIs
  have tag : nodeTag self = (self.al, layout) := by
    rw [nodeTag, layoutIs]
    rfl
  rw [clearNodes, ends_bind]
  apply ends_loop (fun todo cur later => exists passed rest, nodes = passed ++ rest ∧ todo = rest.length ∧
    cur = (addrs rest).head? ∧ Evolves heap.blocks later.blocks (addrs nodes) (addrs rest) ∧
    forall addr, addr ∈ addrs rest -> later.blocks addr = heap.blocks addr)
  · rintro todo cur mid ⟨passed, rest, split, rfl, rfl, evolves, still⟩
    cases rest with
    | nil =>
        simp only [addrs_nil, List.head?_nil, ends_pure]
        exact done mid ⟨Holds.empty holds.real holds.elem holds.layout rfl rfl rfl, evolves, rfl, rfl⟩
    | cons entry rest =>
        rcases entry with ⟨node, val⟩
        have whole := holds
        rw [split] at whole
        have at_ := (whole.stored _ (List.mem_append_right _ List.mem_cons_self)).congr (still node List.mem_cons_self)
        have next_ : nextLink mid.blocks node = (addrs rest).head? := by
          rw [nextLink_congr (still node List.mem_cons_self)]
          exact whole.next_eq
        have distinct := whole.nodup
        rw [addrs_append, addrs_cons] at distinct
        have fresh : node ∉ addrs rest :=
          (List.nodup_cons.mp (List.nodup_append'.mp distinct).2.1).1
        have here := at_.here
        rw [tag] at here
        simp only [addrs_cons, List.head?_cons, ends_bind, ends_readNode at_, deallocNode, nodeLayout, layoutIs,
          ends_demand_some, ends_dealloc_some holds.real sized here, ends_pure]
        refine ⟨rest.length, Nat.lt_succ_self _, passed ++ [(node, val)], rest, ?_, rfl, next_, ?_, ?_⟩
        · rw [split, List.append_assoc]
          rfl
        · rw [Heap.put_blocks]
          apply evolves.trans
          apply Evolves.of_release
          · exact List.mem_cons_self
          · intro other
            rw [addrs_cons, List.mem_cons]
            constructor
            · intro inside
              refine ⟨?_, Or.inr inside⟩
              rintro rfl
              exact fresh inside
            · exact fun inside => inside.2.resolve_left inside.1
        · intro addr inside
          rw [Heap.put_blocks, Function.update_of_ne]
          · exact still addr (List.mem_cons_of_mem _ inside)
          · rintro rfl
            exact fresh inside
  · exact ⟨[], nodes, rfl, rfl, holds.linked.head_eq, Evolves.refl _ _, fun _ _ => rfl⟩
  · exact Nat.lt_succ_of_le (Nat.le_of_eq holds.len.symm)

theorem ends_clear (holds : Holds heap.blocks self nodes) {post : TdaList -> ListMem α -> Prop}
    (done : forall later : ListMem α, Tends heap.blocks later.blocks self (setEmpty self) nodes [] ->
      post (setEmpty self) later) :
    Ends (clear α self) heap post := by
  rw [clear, ends_bind, ends_assertList holds.asserts, ends_bind]
  apply ends_clearNodes holds
  intro later tends
  rw [ends_bind, ends_assertList tends.holds.asserts, ends_pure]
  exact done later tends

theorem ends_deinit_inert {post : TdaList -> ListMem α -> Prop} :
    Ends (deinit α inert) heap post <-> post inert heap := by
  have none_ : inert.al = none := rfl
  have bare : inert.head = none := rfl
  simp only [deinit, if_pos none_, ends_bind, ends_require, bare, true_and, ends_pure]

theorem ends_deinit (holds : Holds heap.blocks self nodes) {post : TdaList -> ListMem α -> Prop}
    (done : forall later : ListMem α, Evolves heap.blocks later.blocks (addrs nodes) [] -> post inert later) :
    Ends (deinit α self) heap post := by
  have real : self.al ≠ none := Option.isSome_iff_ne_none.mp holds.real
  rw [deinit, if_neg real, ends_bind, ends_assertList holds.asserts, ends_bind]
  apply ends_clearNodes holds
  intro later tends
  exact (ends_pure _ _ _).mpr (done later tends.evolves)

/-! ## Making lists -/

/-- A list that was built of nodes of its own. -/
structure Born (before later : Blocks AlTag (ListNode α)) (list : TdaList) (nodes : List (Addr × α)) (elem : Layout)
    (al : Al) : Prop where
  holds : Holds later list nodes
  evolves : Evolves before later [] (addrs nodes)
  elem_eq : list.elem = elem
  al_eq : list.al = al

/-- A node can be made for elems of this layout. -/
def Storable (elem : Layout) : Prop := elem.isType = true ∧ (ckdNodeLayout elem).isSome = true

theorem Holds.storable (holds : Holds blocks self nodes) : Storable self.elem := ⟨holds.elem, holds.layout⟩

theorem ends_init (storable : Storable elem) (real : al.isSome = true) {s : S} {post : TdaList -> S -> Prop} :
    Ends (init elem al) s post <-> post ⟨none, none, 0, elem, al⟩ s := by
  simp only [init, ends_bind, ends_require, storable.1, real, storable.2, true_and, ends_pure]

theorem born_bare (storable : Storable elem) (real : al.isSome = true) :
    Born blocks blocks ⟨none, none, 0, elem, al⟩ ([] : List (Addr × α)) elem al :=
  ⟨Holds.empty real storable.1 storable.2 rfl rfl rfl, Evolves.refl _ _, rfl, rfl⟩

/-- One more node at the end of a list that is being built. -/
theorem Born.pushed (born : Born blocks heap.blocks self nodes elem al)
    (tends : Tends heap.blocks later self after nodes others) : Born blocks later after others elem al :=
  ⟨tends.holds, born.evolves.trans tends.evolves, tends.elem.trans born.elem_eq, tends.al.trans born.al_eq⟩

theorem Born.undone {last : Blocks AlTag (ListNode α)} (born : Born blocks later self nodes elem al)
    (gone : Evolves later last (addrs nodes) []) : last = blocks :=
  (born.evolves.trans gone).eq_of_nil

/-- A list of the elems, or no trace since a request was refused. -/
theorem ends_fromData (storable : Storable elem) (real : al.isSome = true)
    {post : Status × Option TdaList -> ListMem α -> Prop}
    (refused : ¬ heap.Supplies vals.length -> heap.Spared (post (.errNoMem, none)))
    (done : forall (list : TdaList) (later : ListMem α) (nodes : List (Addr × α)), elems nodes = vals ->
      Born heap.blocks later.blocks list nodes elem al -> post (.ok, some list) later) :
    Ends (fromData vals elem al) heap post := by
  rw [fromData, ends_bind, ends_init storable real]
  refine ends_loop (fun todo (vars : Nat × TdaList) later => todo = vals.length - vars.1 ∧ vars.1 ≤ vals.length ∧
    (heap.Supplies vals.length -> later.Supplies (vals.length - vars.1)) ∧
    exists nodes, elems nodes = vals.take vars.1 ∧ Born heap.blocks later.blocks vars.2 nodes elem al) ?_
    (n := vals.length) ⟨rfl, Nat.zero_le _, id, [], rfl, born_bare storable real⟩ (Nat.lt_succ_self _)
  rintro todo ⟨i, obj⟩ mid ⟨rfl, few, onward, nodes, same, born⟩
  dsimp only at few onward same born ⊢
  by_cases below : i < vals.length
  · have left_ : vals.length - i = vals.length - (i + 1) + 1 := by omega
    rw [left_] at onward
    rw [if_pos below, List.getElem?_eq_getElem below, ends_bind, ends_demand_some, ends_bind]
    apply ends_pushBack born.holds
    · intro denied later unchanged
      have now : Holds later.blocks obj nodes := born.holds.congr fun addr _ => congrFun unchanged addr
      simp only [if_refused, ends_bind]
      apply ends_deinit now
      intro last gone
      rw [unchanged] at gone
      rw [ends_pure]
      exact refused (fun supplies => denied (onward supplies).first) last (born.undone gone)
    · intro longer later node _ further tends
      simp only [if_granted, ends_pure]
      refine ⟨vals.length - (i + 1), by omega, rfl, below, fun supplies => further _ (onward supplies),
        nodes ++ [(node, vals[i])], ?_, born.pushed tends⟩
      rw [elems, List.map_append, ← elems, same, List.take_succ_eq_append_getElem below]
      rfl
  · rw [if_neg below, ends_pure]
    have all : i = vals.length := by omega
    subst all
    rw [List.take_length] at same
    exact done obj mid nodes same born

/-- The nodes of another list are copied, or none is since a request was refused. -/
theorem ends_pushCopies {bound : Nat} (owner : Holds heap.blocks src (left ++ right)) (storable : Storable elem)
    (real : al.isSome = true) (enough : right.length ≤ bound) {post : Status × TdaList -> ListMem α -> Prop}
    (refused : ¬ heap.Supplies right.length -> forall (after : TdaList) (later : ListMem α),
      later.blocks = heap.blocks -> post (.errNoMem, after) later)
    (done : forall (list : TdaList) (later : ListMem α) (copies : List (Addr × α)), elems copies = elems right ->
      Born heap.blocks later.blocks list copies elem al -> post (.ok, list) later) :
    Ends (pushCopies ⟨none, none, 0, elem, al⟩ bound (addrs right).head?) heap post := by
  have kept : forall {list : TdaList} {copies : List (Addr × α)} {mid : Blocks AlTag (ListNode α)},
      Born heap.blocks mid list copies elem al -> Holds mid src (left ++ right) := by
    intro list copies mid born
    apply owner.congr
    intro addr inside
    apply born.evolves.outside addr List.not_mem_nil
    intro also
    exact owner.live inside (born.evolves.fresh addr also List.not_mem_nil)
  unfold pushCopies
  refine ends_loop (fun todo (vars : Option Addr × TdaList) later => exists passed rest copies,
    right = passed ++ rest ∧ todo = rest.length ∧ vars.1 = (addrs rest).head? ∧ elems copies = elems passed ∧
      (heap.Supplies right.length -> later.Supplies rest.length) ∧ Born heap.blocks later.blocks vars.2 copies elem al) ?_
    (n := right.length) ⟨[], right, [], rfl, rfl, rfl, rfl, id, born_bare storable real⟩ (Nat.lt_succ_of_le enough)
  rintro todo ⟨cur, dst⟩ mid ⟨passed, rest, copies, split, rfl, at_, same, onward, born⟩
  dsimp only at at_ born ⊢
  subst at_
  cases rest with
  | nil =>
      simp only [addrs_nil, List.head?_nil, ends_pure]
      rw [List.append_nil] at split
      subst split
      exact done dst mid copies same born
  | cons entry rest =>
      rcases entry with ⟨node, val⟩
      have whole := kept born
      rw [split, ← List.append_assoc] at whole
      simp only [addrs_cons, List.head?_cons, ends_bind, ends_readIn whole]
      apply ends_pushBack born.holds
      · intro denied later unchanged
        have now : Holds later.blocks dst copies := born.holds.congr fun addr _ => congrFun unchanged addr
        simp only [if_refused, ends_bind]
        apply ends_clearNodes now
        intro last gone
        have gone := gone.evolves
        rw [unchanged] at gone
        rw [ends_pure]
        exact refused (fun supplies => denied (onward supplies).first) _ last (born.undone gone)
      · intro longer later made _ further tends
        have bornNow := born.pushed tends
        have wholeNow := kept bornNow
        rw [split, ← List.append_assoc] at wholeNow
        simp only [if_granted, ends_bind, ends_readIn wholeNow, ends_pure]
        refine ⟨rest.length, Nat.lt_succ_self _, passed ++ [(node, val)], rest, copies ++ [(made, val)], ?_, rfl, rfl,
          ?_, fun supplies => further _ (onward supplies), bornNow⟩
        · rw [split, List.append_assoc]
          rfl
        · rw [elems, elems, List.map_append, List.map_append]
          exact congrArg (· ++ [val]) same

/-- A list of copies of the nodes, or no trace since a request was refused. -/
theorem ends_copyWith (holds : Holds heap.blocks self nodes) (real : al.isSome = true)
    {post : Status × Option TdaList -> ListMem α -> Prop}
    (refused : ¬ heap.Supplies nodes.length -> heap.Spared (post (.errNoMem, none)))
    (done : forall (list : TdaList) (later : ListMem α) (copies : List (Addr × α)), elems copies = elems nodes ->
      Born heap.blocks later.blocks list copies self.elem al -> post (.ok, some list) later) :
    Ends (copyWith α self al) heap post := by
  have owner : Holds heap.blocks self ([] ++ nodes) := holds
  rw [copyWith, ends_bind, ends_assertList holds.asserts, ends_bind, ends_init holds.storable real,
    ends_bind, holds.linked.head_eq]
  apply ends_pushCopies owner holds.storable real (Nat.le_of_eq holds.len.symm)
  · intro denied after later same
    simp only [if_refused, ends_pure]
    exact refused denied later same
  · intro list later copies same born
    simp only [if_granted, ends_pure]
    exact done list later copies same born

end TdaList
end TerseDsa
